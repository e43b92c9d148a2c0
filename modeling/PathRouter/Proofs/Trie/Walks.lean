import PathRouter.Proofs.Pattern.Spans
import PathRouter.Proofs.Trie.Tree
import PathRouter.Trie.Composite

/-!
The walks of a text through a trie. A walk goes along edges, each of which reads a stretch of the
text, and ends where the text ends, at a node with a route. Listed in the order in which the edges
are tried, the walks are the outcomes of the composite pattern; so a search finds the first walk.

The numbers of the groups are kept out of the way: `labelled` builds the patterns of a forest from
any numbering of the groups, and the running count of `patterns` is one such numbering.
-/

namespace PathRouter

/-- An edge on the way through a trie, with the stretch of text that it reads. -/
structure Visit where
  key : Key
  slot : Option Nat
  start : Nat
  stop : Nat

structure Walk where
  visits : List Visit
  route : Nat

def Visit.marks (ord : Group → Nat) (v : Visit) : List Mark :=
  match v.slot with
  | none => []
  | some s => [.opened (ord (.slot s)) v.start, .closed (ord (.slot s)) v.stop]

namespace Walk

def along (v : Visit) (w : Walk) : Walk := { w with visits := v :: w.visits }

def groups (w : Walk) : List Group := w.visits.filterMap (·.slot.map Group.slot) ++ [.route w.route]

def marks (ord : Group → Nat) (length : Nat) (w : Walk) : List Mark :=
  w.visits.flatMap (Visit.marks ord) ++
    [.opened (ord (.route w.route)) length, .closed (ord (.route w.route)) length]

theorem marks_along (ord : Group → Nat) (length : Nat) (v : Visit) (w : Walk) :
    (w.along v).marks ord length = v.marks ord ++ w.marks ord length := by
  simp [marks, along, List.append_assoc]

theorem groups_along (v : Visit) (w : Walk) :
    (w.along v).groups = (v.slot.map Group.slot).toList ++ w.groups := by
  cases h : v.slot <;> simp [groups, along, h]

def ending (text : List Char) (route : Option Nat) (i : Nat) : List Walk :=
  if i = text.length then (route.map fun r => ⟨[], r⟩).toList else []

end Walk

/-- The walks through a forest from a position on, in the order in which the edges are tried. -/
def Forest.walks (text : List Char) : Forest → Nat → List Walk
  | .nil, _ => []
  | .node key slot route children siblings, i =>
    (key.pattern.outcomes text i).flatMap (fun o =>
      (Walk.ending text route o.1 ++ children.walks text o.1).map
        (Walk.along ⟨key, slot, i, o.1⟩)) ++ siblings.walks text i

def Node.walks (text : List Char) (node : Node) (i : Nat) : List Walk :=
  Walk.ending text node.route i ++ node.children.walks text i

/-! ### Patterns with any numbering -/

/-- The numbering counts the groups up, starting from a number. -/
def Numbered (ord : Group → Nat) : List Group → Nat → Prop
  | [], _ => True
  | g :: gs, next => ord g = next ∧ Numbered ord gs (next + 1)

theorem numbered_append {ord : Group → Nat} {gs gs' : List Group} {next : Nat} :
    Numbered ord (gs ++ gs') next ↔ Numbered ord gs next ∧ Numbered ord gs' (next + gs.length) := by
  induction gs generalizing next with
  | nil => simp [Numbered]
  | cons g gs ih =>
      rw [List.cons_append, Numbered, Numbered, ih, List.length_cons, and_assoc,
        show next + (gs.length + 1) = next + 1 + gs.length by omega]

theorem numbered_idxOf {gs : List Group} (h : gs.Nodup) :
    Numbered (fun g => gs.idxOf g + 1) gs 1 := by
  have hsuffix (before after : List Group) (hgs : gs = before ++ after) :
      Numbered (fun g => gs.idxOf g + 1) after (before.length + 1) := by
    induction after generalizing before with
    | nil => trivial
    | cons g after ih =>
        have hlt : before.length < gs.length := by simp [hgs]
        have hget : gs[before.length] = g := by simp [hgs]
        refine ⟨?_, ?_⟩
        · simp only
          rw [← hget, h.idxOf_getElem]
        · simpa using ih (before ++ [g]) (by simp [hgs])
  exact hsuffix [] gs rfl

def Pattern.edge (ord : Group → Nat) (key : Key) : Option Nat → Pattern
  | none => key.pattern
  | some s => .capture (ord (.slot s)) key.pattern

def Pattern.labelledEnding (ord : Group → Nat) (route : Option Nat) : List Pattern :=
  (route.map fun r => Pattern.terminal (ord (.route r))).toList

def Forest.labelled (ord : Group → Nat) : Forest → List Pattern
  | .nil => []
  | .node key slot route children siblings =>
    .seq (Pattern.edge ord key slot)
      (Pattern.branch (Pattern.labelledEnding ord route ++ children.labelled ord))
      :: siblings.labelled ord

theorem length_toList_map {α β : Type} (f : α → β) (a : Option α) :
    (a.map f).toList.length = a.toList.length := by
  cases a <;> rfl

theorem Pattern.eq_terminal_of_mem_endings {route : Option Nat} {next : Nat} {p : Pattern}
    (h : p ∈ endings route next) : p = terminal next := by
  obtain ⟨-, -, rfl⟩ := Option.map_eq_some_iff.1 (Option.mem_toList.1 h)
  rfl

/-- Counting the groups while the patterns are built is one way to number them. -/
theorem Forest.patterns_eq_labelled {ord : Group → Nat} {edges : Forest} {next : Nat}
    (h : Numbered ord edges.groups next) : edges.patterns next = edges.labelled ord := by
  induction edges generalizing next with
  | nil => rfl
  | node key slot route children siblings ihc ihs =>
      rw [groups, numbered_append, numbered_append, numbered_append] at h
      obtain ⟨⟨⟨hslot, hroute⟩, hchildren⟩, hsiblings⟩ := h
      -- every part is numbered from where the code starts to count for it
      simp only [List.length_append, length_toList_map, ← Nat.add_assoc]
        at hroute hchildren hsiblings
      have hedge : (if slot.isSome then Pattern.capture next key.pattern else key.pattern) =
          Pattern.edge ord key slot := by
        cases slot with
        | none => rfl
        | some s => rw [Pattern.edge, hslot.1, Option.isSome_some, if_pos rfl]
      have hending : Pattern.endings route (next + slot.toList.length) =
          Pattern.labelledEnding ord route := by
        cases route with
        | none => rfl
        | some r => simp [Pattern.endings, Pattern.labelledEnding, hroute.1]
      simp only [patterns, labelled]
      rw [hedge, hending, ihc hchildren, ihs hsiblings]

/-! ### Walks are outcomes -/

theorem Pattern.outcomes_choice {ps : List Pattern} (h : ps ≠ []) (text : List Char) (i : Nat) :
    (Pattern.choice ps).outcomes text i = ps.flatMap (·.outcomes text i) := by
  induction ps with
  | nil => exact absurd rfl h
  | cons p ps ih =>
      cases ps with
      | nil => simp [choice]
      | cons q ps =>
          have hchoice : choice (p :: q :: ps) = .alt p (choice (q :: ps)) := rfl
          rw [hchoice, outcomes, ih (by simp)]
          rfl

theorem Pattern.outcomes_branch {ps : List Pattern} (h : ps ≠ []) (text : List Char) (i : Nat) :
    (Pattern.branch ps).outcomes text i = ps.flatMap (·.outcomes text i) := by
  rw [← outcomes_choice h]
  match ps, h with
  | [p], _ => rfl
  | p :: q :: ps, _ => rfl

theorem Key.marks_outcomes {key : Key} {text : List Char} {i : Nat} {o : Pattern.Outcome}
    (h : o ∈ key.pattern.outcomes text i) : o.2 = [] := by
  cases key with
  | literal c =>
      simp only [pattern, Pattern.outcomes] at h
      split at h
      · rw [List.mem_singleton.1 h]
      · simp at h
  | label =>
      simp only [pattern, Pattern.outcomes] at h
      split at h
      · obtain ⟨n, -, rfl⟩ := List.mem_map.1 h
        rfl
      · simp at h
  | tailWildcard =>
      simp only [pattern, Pattern.tail, Pattern.outcomes, List.mem_append, List.mem_flatMap,
        List.mem_map] at h
      rcases h with h | ⟨o', ho', o'', ⟨n, -, rfl⟩, rfl⟩
      · rw [List.mem_singleton.1 h]
      · split at ho'
        · rw [List.mem_singleton.1 ho']
          rfl
        · simp at ho'
  | onlyWildcard =>
      obtain ⟨n, -, rfl⟩ := List.mem_map.1 h
      rfl

theorem Pattern.outcomes_edge (ord : Group → Nat) (key : Key) (slot : Option Nat)
    (text : List Char) (i : Nat) :
    (Pattern.edge ord key slot).outcomes text i =
      (key.pattern.outcomes text i).map fun o => (o.1, Visit.marks ord ⟨key, slot, i, o.1⟩) := by
  cases slot with
  | none =>
      rw [edge]
      conv_lhs => rw [← List.map_id (key.pattern.outcomes text i)]
      refine List.map_congr_left fun o ho => ?_
      rw [Visit.marks, ← Key.marks_outcomes ho]
      rfl
  | some s =>
      refine List.map_congr_left fun o ho => ?_
      rw [Key.marks_outcomes ho]
      rfl

theorem Pattern.outcomes_labelledEnding (ord : Group → Nat) (route : Option Nat)
    (text : List Char) (i : Nat) :
    (Pattern.labelledEnding ord route).flatMap (·.outcomes text i) =
      (Walk.ending text route i).map fun w => (text.length, w.marks ord text.length) := by
  cases route with
  | none =>
      rw [Walk.ending]
      split <;> rfl
  | some r =>
      by_cases hi : i = text.length
      · subst hi
        simp [labelledEnding, terminal, outcomes, Walk.ending, Walk.marks]
      · simp [labelledEnding, terminal, outcomes, Walk.ending, hi]

theorem Forest.labelled_ne_nil (ord : Group → Nat) {route : Option Nat} {edges : Forest}
    (h : route.isSome ∨ edges ≠ .nil) :
    Pattern.labelledEnding ord route ++ edges.labelled ord ≠ [] := by
  rcases h with hroute | hedges
  · obtain ⟨r, rfl⟩ := Option.isSome_iff_exists.1 hroute
    simp [Pattern.labelledEnding]
  · cases edges with
    | nil => exact absurd rfl hedges
    | node => simp [labelled]

/-- The outcomes of a proper forest's patterns are its walks. -/
theorem Forest.outcomes_labelled (ord : Group → Nat) {edges : Forest} (h : edges.Proper)
    (text : List Char) (i : Nat) :
    (edges.labelled ord).flatMap (·.outcomes text i) =
      (edges.walks text i).map fun w => (text.length, w.marks ord text.length) := by
  induction edges generalizing i with
  | nil => rfl
  | node key slot route children siblings ihc ihs =>
      obtain ⟨-, hlive, hchildren, hsiblings⟩ := h
      rw [labelled, walks, List.flatMap_cons, List.map_append, ihs hsiblings, Pattern.outcomes,
        Pattern.outcomes_edge, List.flatMap_map, List.map_flatMap]
      congr 1
      refine List.flatMap_congr fun o _ => ?_
      rw [Pattern.outcomes_branch (labelled_ne_nil ord hlive), List.flatMap_append,
        Pattern.outcomes_labelledEnding, ihc hchildren, ← List.map_append, List.map_map,
        List.map_map]
      refine List.map_congr_left fun w _ => ?_
      simp [Walk.marks_along]

/-- The outcomes of a live node's pattern are its walks. -/
theorem Node.outcomes_branch (ord : Group → Nat) {node : Node} (h : node.Live) (text : List Char)
    (i : Nat) :
    (Pattern.branch (Pattern.labelledEnding ord node.route ++ node.children.labelled ord)).outcomes
        text i =
      (node.walks text i).map fun w => (text.length, w.marks ord text.length) := by
  rw [Pattern.outcomes_branch (Forest.labelled_ne_nil ord h.1), List.flatMap_append,
    Pattern.outcomes_labelledEnding, Forest.outcomes_labelled ord h.2, ← List.map_append]
  rfl

end PathRouter
