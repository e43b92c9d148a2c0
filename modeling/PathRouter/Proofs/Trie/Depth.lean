import Mathlib.Order.Bounds.Basic
import PathRouter.Pattern.Limits
import PathRouter.Proofs.Trie.Openings

/-!
How deep the pattern of a trie nests. Along nodes with a single alternative the pattern is one
sequence, and it gets no deeper; each node with several of them adds a bracket, an alternation and a
sequence. So the depth is told by the greatest number of branchings on the way to a route, up to
what the deepest key adds.
-/

namespace PathRouter

/-! ### Branchings -/

namespace Node

/-- One, if the node has several alternatives: its edges, and the end of its route. -/
def branching (node : Node) : Nat :=
  if 2 ≤ node.children.edges.length + node.route.toList.length then 1 else 0

def branchingsAlong : Node → List Key → Nat
  | node, [] => node.branching
  | node, key :: rest =>
    node.branching + ((node.children.get? key).map fun child => child.branchingsAlong rest).getD 0

end Node

def Forest.branchings : Forest → Nat
  | .nil => 0
  | .node _ slot route children siblings =>
    max (Node.branching { slot, route, children } + children.branchings) siblings.branchings

/-- The greatest number of branchings on the way from a node to the end of a route. -/
def Node.branchings (node : Node) : Nat := node.branching + node.children.branchings

namespace Forest

theorem branchings_node (key : Key) (slot route : Option Nat) (children siblings : Forest) :
    (Forest.node key slot route children siblings).branchings =
      max (Node.branchings { slot, route, children }) siblings.branchings := rfl

theorem branchings_le_of_get? {edges : Forest} {key : Key} {child : Node}
    (h : edges.get? key = some child) : child.branchings ≤ edges.branchings := by
  induction edges with
  | nil => cases h
  | node k slot route children siblings _ ih =>
      rw [get?] at h
      split at h
      · obtain rfl := Option.some.inj h
        exact Nat.le_max_left ..
      · exact (ih h).trans (Nat.le_max_right ..)

/-- Some way behind the edges, up to the end of a route, has all branchings. -/
def Attains (edges : Forest) : Prop :=
  ∃ key child rest, edges.get? key = some child ∧ (child.routeAt rest).isSome ∧
    child.branchingsAlong rest = edges.branchings

end Forest

namespace Node

theorem branchingsAlong_le (node : Node) (keys : List Key) :
    node.branchingsAlong keys ≤ node.branchings := by
  induction keys generalizing node with
  | nil => exact Nat.le_add_right ..
  | cons key rest ih =>
      rw [branchingsAlong, branchings]
      cases hget : node.children.get? key with
      | none => simp
      | some child =>
          have hrest := (ih child).trans (Forest.branchings_le_of_get? hget)
          simpa using hrest

theorem exists_branchingsAlong_of {node : Node} (hlive : node.route.isSome ∨ node.children ≠ .nil)
    (h : node.children ≠ .nil → node.children.Attains) :
    ∃ keys, (node.routeAt keys).isSome ∧ node.branchingsAlong keys = node.branchings := by
  by_cases hnil : node.children = .nil
  · refine ⟨[], ?_, ?_⟩
    · simpa [hnil] using hlive
    · simp [branchingsAlong, branchings, hnil, Forest.branchings]
  · obtain ⟨key, child, rest, hget, hroute, hbranchings⟩ := h hnil
    refine ⟨key :: rest, ?_, ?_⟩
    · rwa [routeAt_cons, hget]
    · rw [branchingsAlong, hget, Option.map_some, Option.getD_some, hbranchings, branchings]

end Node

theorem Forest.Proper.attains {edges : Forest} (h : edges.Proper) (hne : edges ≠ .nil) :
    edges.Attains := by
  induction edges with
  | nil => exact absurd rfl hne
  | node key slot route children siblings ihc ihs =>
      obtain ⟨-, hlive, hchildren, hrests⟩ := id h
      obtain ⟨rest, hroute, hrest⟩ :=
        @Node.exists_branchingsAlong_of { slot, route, children } hlive (ihc hchildren)
      by_cases hmax : siblings.branchings ≤ Node.branchings { slot, route, children }
      · refine ⟨key, _, rest, by rw [get?, if_pos rfl], hroute, ?_⟩
        rw [hrest, branchings_node, Nat.max_eq_left hmax]
      · have hsiblings : siblings ≠ .nil := by
          rintro rfl
          exact hmax (Nat.zero_le _)
        obtain ⟨k, child, rest', hget, hroute', hrest'⟩ := ihs hrests hsiblings
        refine ⟨k, child, rest', (get?_siblings h hget).2, hroute', ?_⟩
        rw [hrest', branchings_node, Nat.max_eq_right (Nat.le_of_not_le hmax)]

/-- The number of branchings is the greatest one on a way to the end of a route. -/
theorem Node.Live.isGreatest_branchings {node : Node} (h : node.Live) :
    IsGreatest {n | ∃ keys, (node.routeAt keys).isSome ∧ node.branchingsAlong keys = n}
      node.branchings := by
  constructor
  · exact exists_branchingsAlong_of h.1 h.2.attains
  · rintro n ⟨keys, -, rfl⟩
    exact node.branchingsAlong_le keys

/-! ### Depths -/

namespace Pattern

/-- The depth of the deepest one of some sequences, each as a part of another sequence. -/
def deepest (ps : List Pattern) : Nat := ps.foldr (fun p n => max (p.depthIn .sequence) n) 0

theorem deepest_append (ps qs : List Pattern) :
    deepest (ps ++ qs) = max (deepest ps) (deepest qs) := by
  induction ps with
  | nil => simp [deepest]
  | cons p ps ih =>
      have hcons (qs : List Pattern) : deepest (p :: qs) = max (p.depthIn .sequence) (deepest qs) :=
        rfl
      rw [List.cons_append, hcons, hcons, ih, Nat.max_assoc]

theorem depthIn_choice {ps : List Pattern} (hne : ps ≠ []) (h : ∀ p ∈ ps, ∃ a b, p = .seq a b) :
    (choice ps).depthIn .alternation = 1 + deepest ps := by
  induction ps with
  | nil => exact absurd rfl hne
  | cons p ps ih =>
      obtain ⟨⟨a, b, rfl⟩, hps⟩ := List.forall_mem_cons.1 h
      cases ps with
      | nil => simp [choice, deepest, depthIn]
      | cons q ps =>
          have hchoice : (choice (seq a b :: q :: ps)).depthIn .alternation =
              max ((seq a b).depthIn .alternation) ((choice (q :: ps)).depthIn .alternation) := by
            simp [choice, depthIn]
          have hseq : (seq a b).depthIn .alternation = 1 + (seq a b).depthIn .sequence := by
            simp [depthIn]
          rw [hchoice, hseq, ih (by simp) hps, Nat.add_max_add_left]
          rfl

/-- Several sequences in one bracket nest deeper by three: the bracket, the alternation, and the
sequences themselves. -/
theorem depthIn_branch {ps : List Pattern} (h : ∀ p ∈ ps, ∃ a b, p = .seq a b) :
    (branch ps).depthIn .sequence = (if 2 ≤ ps.length then 3 else 0) + deepest ps := by
  match ps with
  | [] => rfl
  | [p] => simp [branch, choice, deepest]
  | p :: q :: ps =>
    have hinner : (choice (p :: q :: ps)).depthIn .none =
        1 + (choice (p :: q :: ps)).depthIn .alternation := by
      simp [choice, depthIn]
    rw [branch, depthIn, hinner, depthIn_choice (by simp) h, if_pos (by simp)]
    omega

theorem deepest_endings (route : Option Nat) (next : Nat) :
    deepest (endings route next) = route.toList.length := by
  cases route <;> rfl

end Pattern

theorem Key.depth_edge_le {key : Key} {slot : Option Nat} (h : slot.isSome → key = .label)
    (next : Nat) : (key.edge slot next).depthIn .sequence ≤ 4 := by
  cases slot with
  | some s =>
      obtain rfl := h rfl
      exact Nat.le_succ 3
  | none => cases key <;> simp [edge, pattern, Pattern.tail, Pattern.depthIn]

theorem Forest.exists_seq (edges : Forest) (next : Nat) :
    ∀ p ∈ edges.patterns next, ∃ a b, p = .seq a b := by
  induction edges generalizing next with
  | nil => simp [patterns]
  | node key slot route children siblings _ ih =>
      rw [patterns_node]
      exact List.forall_mem_cons.2 ⟨⟨_, _, rfl⟩, ih _⟩

namespace Node

theorem exists_seq (node : Node) (next next' : Nat) :
    ∀ p ∈ Pattern.endings node.route next ++ node.children.patterns next', ∃ a b, p = .seq a b :=
  List.forall_mem_append.2 ⟨fun _ hp => ⟨_, _, Pattern.eq_terminal_of_mem_endings hp⟩,
    node.children.exists_seq next'⟩

/-- A node nests deeper by three than its deepest alternative, if it is a branching. -/
theorem depth_reading (node : Node) (next : Nat) :
    (node.reading next).depthIn .sequence = 3 * node.branching + max node.route.toList.length
      (Pattern.deepest (node.children.patterns (next + node.route.toList.length))) := by
  rw [reading, Pattern.depthIn_branch (node.exists_seq next _), node.length_alternatives,
    Pattern.deepest_append, Pattern.deepest_endings, branching]
  split <;> rfl

theorem le_depth_reading_of {node : Node} (hlive : node.route.isSome ∨ node.children ≠ .nil)
    (h : node.children ≠ .nil → ∀ next,
      3 * node.children.branchings + 1 ≤ Pattern.deepest (node.children.patterns next))
    (next : Nat) : 3 * node.branchings + 1 ≤ (node.reading next).depthIn .sequence := by
  rw [depth_reading, branchings]
  by_cases hnil : node.children = .nil
  · -- only the end of a route is left
    obtain ⟨r, hr⟩ := Option.isSome_iff_exists.1 (hlive.resolve_right (not_not.2 hnil))
    simp [hnil, hr, Forest.branchings]
  · have hchildren := h hnil (next + node.route.toList.length)
    omega

theorem depth_reading_le_of {node : Node}
    (h : ∀ next, Pattern.deepest (node.children.patterns next) ≤ 3 * node.children.branchings + 4)
    (next : Nat) : (node.reading next).depthIn .sequence ≤ 3 * node.branchings + 4 := by
  have hchildren := h (next + node.route.toList.length)
  have hroute : node.route.toList.length ≤ 1 := by
    cases node.route <;> simp
  rw [depth_reading, branchings]
  omega

end Node

namespace Forest

theorem deepest_patterns_node (key : Key) (slot route : Option Nat) (children siblings : Forest)
    (next : Nat) : ∃ next' next'',
    Pattern.deepest ((Forest.node key slot route children siblings).patterns next) =
      max (max ((key.edge slot next).depthIn .sequence)
        ((Node.reading { slot, route, children } next').depthIn .sequence))
          (Pattern.deepest (siblings.patterns next'')) :=
  ⟨next + slot.toList.length, next + slot.toList.length + route.toList.length +
    children.groups.length, by simp [patterns_node, Pattern.deepest, Pattern.depthIn]⟩

theorem Proper.le_deepest {edges : Forest} (h : edges.Proper) (hne : edges ≠ .nil) (next : Nat) :
    3 * edges.branchings + 1 ≤ Pattern.deepest (edges.patterns next) := by
  induction edges generalizing next with
  | nil => exact absurd rfl hne
  | node key slot route children siblings ihc ihs =>
      obtain ⟨-, hlive, hchildren, hsiblings⟩ := h
      obtain ⟨next', next'', hdeepest⟩ :=
        deepest_patterns_node key slot route children siblings next
      have hnode := @Node.le_depth_reading_of { slot, route, children } hlive (ihc hchildren) next'
      rw [hdeepest, branchings_node]
      by_cases hnil : siblings = .nil
      · have hnone : siblings.branchings = 0 := by rw [hnil, branchings]
        omega
      · have hrest := ihs hsiblings hnil next''
        omega

theorem SlotsAtLabels.deepest_le {edges : Forest} (h : edges.SlotsAtLabels) (next : Nat) :
    Pattern.deepest (edges.patterns next) ≤ 3 * edges.branchings + 4 := by
  induction edges generalizing next with
  | nil => exact Nat.zero_le _
  | node key slot route children siblings ihc ihs =>
      obtain ⟨hlabel, hchildren, hsiblings⟩ := h
      obtain ⟨next', next'', hdeepest⟩ :=
        deepest_patterns_node key slot route children siblings next
      have hedge := key.depth_edge_le hlabel next
      have hnode := @Node.depth_reading_le_of { slot, route, children } (ihc hchildren) next'
      have hrest := ihs hsiblings next''
      rw [hdeepest, branchings_node]
      omega

end Forest

namespace Trie

/-- The depth of a trie's pattern: three levels for each branching on the way with most of them, and
between two and five more. -/
theorem depth_composite {trie : Trie} (hlive : trie.root.Live) (hslots : trie.root.SlotsAtLabels) :
    3 * trie.root.branchings + 2 ≤ (Pattern.seq .start (trie.root.reading 1)).depth ∧
      (Pattern.seq .start (trie.root.reading 1)).depth ≤ 3 * trie.root.branchings + 5 := by
  have hle := Node.le_depth_reading_of hlive.1 hlive.2.le_deepest 1
  have hge := Node.depth_reading_le_of (hslots.children hlive.2).deepest_le 1
  have hdepth : (Pattern.seq .start (trie.root.reading 1)).depth =
      1 + (trie.root.reading 1).depthIn .sequence := by
    simp [Pattern.depth, Pattern.depthIn]
  omega

end Trie

end PathRouter
