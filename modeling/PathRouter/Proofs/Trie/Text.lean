import PathRouter.Proofs.Pattern.Reader
import PathRouter.Proofs.Trie.Emission
import PathRouter.Proofs.Trie.Refused

/-!
The text of a trie, read again, is the recursive reading of its tree: its patterns are put together
in the one way that a text can tell, and their groups are counted in the order of the text.
-/

namespace PathRouter

namespace Pattern

def IsRest (p : Pattern) : Prop := p ≠ .empty ∧ p.IsBranch ∧ p.Canonical

theorem canonical_choice {ps : List Pattern} (h : ∀ p ∈ ps, p.IsRest) : (choice ps).Canonical := by
  induction ps with
  | nil => trivial
  | cons p ps ih =>
      obtain ⟨hp, hps⟩ := List.forall_mem_cons.1 h
      cases ps with
      | nil => exact hp.2.2
      | cons q ps => exact ⟨hp.2, ih hps⟩

theorem isRest_branch {ps : List Pattern} (hne : ps ≠ []) (h : ∀ p ∈ ps, p.IsRest) :
    (branch ps).IsRest := by
  match ps with
  | [] => exact absurd rfl hne
  | [p] => exact h p List.mem_cons_self
  | p :: q :: ps => exact ⟨by simp [branch], trivial, canonical_choice h⟩

theorem isRest_endings {route : Option Nat} {next : Nat} :
    ∀ p ∈ endings route next, p.IsRest := by
  intro p hp
  rw [eq_terminal_of_mem_endings hp]
  exact ⟨by simp [terminal], trivial, ⟨trivial, trivial⟩, by simp, trivial, trivial⟩

theorem captures_choice_cons (p : Pattern) (ps : List Pattern) :
    (choice (p :: ps)).captures = p.captures + (choice ps).captures := by
  cases ps with
  | nil => simp [choice, captures]
  | cons q ps => rfl

theorem countsFrom_choice_cons {p : Pattern} {ps : List Pattern} {next : Nat} :
    (choice (p :: ps)).CountsFrom next ↔
      p.CountsFrom next ∧ (choice ps).CountsFrom (next + p.captures) := by
  cases ps with
  | nil => simp [choice, CountsFrom]
  | cons q ps => rfl

theorem captures_branch (ps : List Pattern) : (branch ps).captures = (choice ps).captures := by
  match ps with
  | [] | [p] | p :: q :: ps => rfl

theorem countsFrom_branch {ps : List Pattern} {next : Nat} :
    (branch ps).CountsFrom next ↔ (choice ps).CountsFrom next := by
  match ps with
  | [] | [p] | p :: q :: ps => rfl

/-- The end of a route counts its group, and the other alternatives count on. -/
theorem counts_endings (route : Option Nat) (next : Nat) (ps : List Pattern) :
    (choice (endings route next ++ ps)).captures =
        route.toList.length + (choice ps).captures ∧
      ((choice (endings route next ++ ps)).CountsFrom next ↔
        (choice ps).CountsFrom (next + route.toList.length)) := by
  cases route with
  | none => simp [endings]
  | some index =>
      have hends : endings (some index) next ++ ps = terminal next :: ps := rfl
      rw [hends, captures_choice_cons, countsFrom_choice_cons]
      simp [terminal, captures, CountsFrom]

end Pattern

/-! ### Edges, nodes and trees -/

def Key.edge (key : Key) (slot : Option Nat) (next : Nat) : Pattern :=
  if slot.isSome then .capture next key.pattern else key.pattern

theorem Key.isItem_edge (key : Key) (slot : Option Nat) (next : Nat) :
    (key.edge slot next).IsItem ∧ (key.edge slot next).Canonical := by
  cases slot <;> cases key <;> simp [edge, pattern, Pattern.tail, Pattern.IsItem, Pattern.Canonical,
    Pattern.IsBranch]

theorem Key.counts_edge (key : Key) (slot : Option Nat) (next : Nat) :
    (key.edge slot next).captures = slot.toList.length ∧ (key.edge slot next).CountsFrom next := by
  cases slot <;> cases key <;>
    simp [edge, pattern, Pattern.tail, Pattern.captures, Pattern.CountsFrom]

namespace Forest

theorem patterns_node (key : Key) (slot route : Option Nat) (children siblings : Forest)
    (next : Nat) :
    (Forest.node key slot route children siblings).patterns next =
      .seq (key.edge slot next)
          (Node.reading { slot, route, children } (next + slot.toList.length)) ::
        siblings.patterns (next + slot.toList.length + route.toList.length +
          children.groups.length) := rfl

theorem Proper.isRest {edges : Forest} (h : edges.Proper) (next : Nat) :
    ∀ p ∈ edges.patterns next, p.IsRest := by
  induction edges generalizing next with
  | nil => simp [patterns]
  | node key slot route children siblings ihc ihs =>
      obtain ⟨-, hlive, hchildren, hsiblings⟩ := h
      have hreading : (Node.reading { slot, route, children } (next + slot.toList.length)).IsRest :=
        Pattern.isRest_branch (endings_append_patterns_ne_nil hlive)
          (List.forall_mem_append.2 ⟨Pattern.isRest_endings, ihc hchildren _⟩)
      rw [patterns_node]
      exact List.forall_mem_cons.2
        ⟨⟨by simp, trivial, key.isItem_edge slot next, hreading⟩, ihs hsiblings _⟩

/-- The groups of the alternatives are counted up, one for each group of the forest. -/
def CountsUp (edges : Forest) : Prop :=
  ∀ next, (Pattern.choice (edges.patterns next)).captures = edges.groups.length ∧
    (Pattern.choice (edges.patterns next)).CountsFrom next

end Forest

theorem Node.counts_reading_of {node : Node} (h : node.children.CountsUp) (next : Nat) :
    (node.reading next).captures = node.groups.length ∧ (node.reading next).CountsFrom next := by
  obtain ⟨hends, hends'⟩ := Pattern.counts_endings node.route next
    (node.children.patterns (next + node.route.toList.length))
  obtain ⟨hchildren, hchildren'⟩ := h (next + node.route.toList.length)
  rw [reading, Pattern.captures_branch, Pattern.countsFrom_branch, hends, hchildren]
  exact ⟨by simp [groups, length_toList_map], hends'.2 hchildren'⟩

theorem Forest.countsUp (edges : Forest) : edges.CountsUp := by
  intro next
  induction edges generalizing next with
  | nil => exact ⟨rfl, trivial⟩
  | node key slot route children siblings ihc ihs =>
      obtain ⟨hedge, hedge'⟩ := key.counts_edge slot next
      obtain ⟨hnode, hnode'⟩ := @Node.counts_reading_of { slot, route, children } ihc
        (next + slot.toList.length)
      obtain ⟨hsiblings, hsiblings'⟩ := ihs (next + slot.toList.length + route.toList.length +
        children.groups.length)
      have hgroups : (Node.groups { slot, route, children }).length =
          route.toList.length + children.groups.length := by
        simp [Node.groups, length_toList_map]
      rw [patterns_node, Pattern.captures_choice_cons, Pattern.countsFrom_choice_cons,
        Pattern.captures, Pattern.CountsFrom, hedge, hnode, hsiblings, hgroups, groups]
      refine ⟨?_, ⟨hedge', hnode'⟩, ?_⟩
      · simp only [List.length_append, length_toList_map]
        omega
      · rw [← Nat.add_assoc, ← Nat.add_assoc]
        exact hsiblings'

namespace Node

theorem Live.isRest_reading {node : Node} (h : node.Live) (next : Nat) :
    (node.reading next).IsRest :=
  Pattern.isRest_branch (Forest.endings_append_patterns_ne_nil h.1)
    (List.forall_mem_append.2 ⟨Pattern.isRest_endings, h.2.isRest _⟩)

theorem counts_reading (node : Node) (next : Nat) :
    (node.reading next).captures = node.groups.length ∧ (node.reading next).CountsFrom next :=
  counts_reading_of node.children.countsUp next

end Node

theorem Node.live_of_routeAt {node : Node} (h : node.children.Proper) {keys : List Key}
    {index : Nat} (hroute : node.routeAt keys = some index) : node.Live := by
  refine ⟨?_, h⟩
  cases keys with
  | nil => exact Or.inl (Option.isSome_of_eq_some hroute)
  | cons key rest =>
      rw [routeAt_cons] at hroute
      refine Or.inr fun hnil => ?_
      rw [hnil, Forest.get?_nil, Option.bind_none] at hroute
      cases hroute

theorem Key.read?_text (key : Key) : Pattern.read? key.text = some key.pattern := by
  have hedge := key.isItem_edge none 1
  have hcounts := key.counts_edge none 1
  rw [← key.text_pattern]
  exact Pattern.read?_text hedge.2 hcounts.2

namespace Trie

variable {trie : Trie}

theorem History.Sound.live {history : History} (h : history.Sound) (hne : history.merged ≠ []) :
    history.trie.root.Live := by
  obtain ⟨r, hr⟩ := List.exists_mem_of_ne_nil _ hne
  exact Node.live_of_routeAt h.proper ((h.routes _ _).2 ⟨r, hr, rfl, rfl⟩)

/-- A tree that is no dead end is read as the start of the text and its root. -/
theorem pattern_composite_of_live (h : trie.root.Live) :
    trie.composite.pattern = some (.seq .start (trie.root.reading 1)) := by
  have hne := Forest.endings_append_patterns_ne_nil (n := 1)
    (m := 1 + trie.root.route.toList.length) h.1
  rw [composite, Node.reading]
  simp [hne]

theorem composite_of_not_live (h : trie.root.children.Proper) (hdead : ¬trie.root.Live) :
    trie.composite.pattern = none ∧ trie.composite.groups = [] := by
  have hnot : ¬(trie.root.route.isSome ∨ trie.root.children ≠ .nil) := fun hor => hdead ⟨hor, h⟩
  rw [not_or, not_not] at hnot
  have hroute : trie.root.route = none := by simpa using hnot.1
  constructor
  · simp [composite, hroute, hnot.2, Pattern.endings, Forest.patterns]
  · simp [composite, hroute, hnot.2, Forest.groups]

/-- The text of a trie is read back as the pattern that it was written for. -/
theorem read?_compile (h : trie.root.children.Proper) :
    trie.compile.text.bind Pattern.read? = trie.composite.pattern := by
  rw [text_compile]
  by_cases hlive : trie.root.Live
  · rw [pattern_composite_of_live hlive]
    refine Pattern.read?_text ?_ ?_
    · exact ⟨⟨trivial, trivial⟩, hlive.isRest_reading 1⟩
    · exact ⟨trivial, (trie.root.counts_reading 1).2⟩
  · rw [(composite_of_not_live h hlive).1]
    rfl

/-- Whatever calls a trie with routes comes from, the stack of tasks runs empty; and the text that
is written by then is read as the start of a text, followed by the recursive reading of the tree,
whose edges are in the order of their keys. Every key is read as what it stands for. -/
theorem text_reads_back (calls : List Insertion) (h : (History.ofCalls calls).merged ≠ []) :
    let root := (History.ofCalls calls).trie.root
    ∃ text, (History.ofCalls calls).trie.compile.text = some text ∧
      (∃ n, (Emission.step^[n] { tasks := [.node root] }).tasks = [] ∧
        '^' :: (Emission.step^[n] { tasks := [.node root] }).text = text) ∧
      Pattern.read? text = some (.seq .start (root.reading 1)) ∧
      root.children.Proper ∧
      ∀ key : Key, Pattern.read? key.text = some key.pattern := by
  intro root
  have hsound := History.sound_ofCalls calls
  have hpattern := read?_compile hsound.proper
  rw [pattern_composite_of_live (hsound.live h)] at hpattern
  obtain ⟨text, htext, hread⟩ := Option.bind_eq_some_iff.1 hpattern
  obtain ⟨n, hn⟩ := Emission.exists_run_eq_iterate { tasks := [.node root] }
  refine ⟨text, htext, ⟨n, ?_, ?_⟩, hread, hsound.proper, Key.read?_text⟩
  · rw [← hn, Emission.tasks_run]
  · rw [← hn]
    simp only [compile, Option.ite_none_left_eq_some] at htext
    exact Option.some.inj htext.2

/-- Characters with a meaning in patterns come back as characters. -/
theorem text_reads_back_escaped :
    let calls : List Insertion := [{ path := "/a(?:b".toList, index := 0 },
      { path := "/a(#".toList, index := 1 }, { path := "/a(".toList, index := 2 }]
    let trie := (History.ofCalls calls).trie
    (History.ofCalls calls).merged ≠ [] ∧
      trie.compile.text = some "^/a\\((?:$()|\\#$()|\\?([^/]+)$())".toList ∧
      Pattern.read? "^/a\\((?:$()|\\#$()|\\?([^/]+)$())".toList =
        some (.seq .start (trie.root.reading 1)) := by
  intro calls trie
  have hmerged : (History.ofCalls calls).merged ≠ [] := by decide +kernel
  have htext : trie.compile.text = some "^/a\\((?:$()|\\#$()|\\?([^/]+)$())".toList := by
    decide +kernel
  obtain ⟨text, htext', -, hread, -⟩ := text_reads_back calls hmerged
  rw [htext, Option.some.injEq] at htext'
  exact ⟨hmerged, htext, htext' ▸ hread⟩

end Trie

end PathRouter
