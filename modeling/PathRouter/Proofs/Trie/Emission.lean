import Mathlib.Data.List.Induction
import Mathlib.Logic.Function.Iterate
import PathRouter.Proofs.Trie.Walks
import PathRouter.Trie.Emission

/-!
The text that is written from the stack is the text of the composite pattern. What a node leaves to
do is done before what lay below it on the stack, so the run goes along with the recursion of the
patterns; and the groups have been counted in the order in which they stand in the text.
-/

namespace PathRouter

/-- What a node is read as, with everything behind it: its only alternative, or all of them in one
bracket, the end of its route first. -/
def Node.reading (node : Node) (next : Nat) : Pattern :=
  Pattern.branch
    (Pattern.endings node.route next ++ node.children.patterns (next + node.route.toList.length))

def Node.groups (node : Node) : List Group :=
  (node.route.map Group.route).toList ++ node.children.groups

namespace Pattern

def barred : Bool → List Pattern → List Char
  | _, [] => []
  | first, p :: ps => (if first then [] else ['|']) ++ p.text ++ barred false ps

theorem barred_append (first : Bool) (ps qs : List Pattern) :
    barred first (ps ++ qs) = barred first ps ++ barred (first && ps.isEmpty) qs := by
  induction ps generalizing first with
  | nil => simp [barred]
  | cons p ps ih => simp [barred, ih]

theorem text_choice (ps : List Pattern) : (choice ps).text = barred true ps := by
  induction ps with
  | nil => rfl
  | cons p ps ih =>
      cases ps with
      | nil => simp [choice, barred]
      | cons q ps =>
          rw [choice, text, ih]
          · simp [barred]
          · simp

theorem text_branch (ps : List Pattern) :
    (branch ps).text =
      if 1 < ps.length then ['(', '?', ':'] ++ barred true ps ++ [')'] else barred true ps := by
  match ps with
  | [] | [p] => exact text_choice _
  | p :: q :: ps =>
    rw [branch, text, text_choice]
    simp

theorem text_branch_eq_nil_iff {ps : List Pattern} (h : ∀ p ∈ ps, p.text ≠ []) :
    (branch ps).text = [] ↔ ps = [] := by
  cases ps with
  | nil => simp [branch, choice, text]
  | cons p ps =>
      have hp := h p List.mem_cons_self
      rw [text_branch, barred]
      split <;> simp [hp]

end Pattern

theorem Key.text_pattern (key : Key) : key.pattern.text = key.text := by
  cases key <;> rfl

theorem Key.text_ne_nil (key : Key) : key.text ≠ [] := by
  cases key with
  | literal c =>
      rw [text, Pattern.escape]
      split <;> simp
  | _ => simp [text]

theorem Forest.text_ne_nil {edges : Forest} {next : Nat} {p : Pattern}
    (hp : p ∈ edges.patterns next) : p.text ≠ [] := by
  induction edges generalizing next with
  | nil => simp [patterns] at hp
  | node key slot route children siblings _ ih =>
      rcases List.mem_cons.1 hp with rfl | hp
      · cases slot <;> simp [Pattern.text, Key.text_pattern, key.text_ne_nil]
      · exact ih hp

theorem Node.text_ne_nil (node : Node) (next next' : Nat) :
    ∀ p ∈ Pattern.endings node.route next ++ node.children.patterns next', p.text ≠ [] := by
  intro p hp
  rcases List.mem_append.1 hp with hending | hchild
  · simp [Pattern.eq_terminal_of_mem_endings hending, Pattern.terminal, Pattern.text]
  · exact Forest.text_ne_nil hchild

theorem Forest.length_patterns (edges : Forest) (next : Nat) :
    (edges.patterns next).length = edges.edges.length := by
  induction edges generalizing next with
  | nil => rfl
  | node key slot route children siblings _ ih => simp [patterns, edges, ih]

theorem Node.length_alternatives (node : Node) (next next' : Nat) :
    (Pattern.endings node.route next ++ node.children.patterns next').length =
      node.children.edges.length + node.route.toList.length := by
  rw [List.length_append, Forest.length_patterns, Pattern.endings, length_toList_map, Nat.add_comm]

namespace Emission

variable {emission : Emission}

/-! ### The run -/

theorem tasks_run (emission : Emission) : emission.run.tasks = [] := by
  fun_induction run emission with
  | case1 emission h => exact h
  | case2 emission _ ih => exact ih

theorem exists_run_eq_iterate (emission : Emission) : ∃ n, emission.run = step^[n] emission := by
  fun_induction run emission with
  | case1 emission => exact ⟨0, rfl⟩
  | case2 emission _ ih =>
      obtain ⟨n, hn⟩ := ih
      exact ⟨n + 1, hn⟩

theorem run_push (emission : Emission) (task : Task) :
    (emission.push task).run = (emission.push task).step.run := by
  rw [run, if_neg (by simp [push])]

def count (emission : Emission) : Group → Emission
  | .route index => emission.countRoute index
  | .slot slot => emission.countSlot slot

theorem foldl_count (groups : List Group) (emission : Emission) :
    (groups.foldl count emission).tasks = emission.tasks ∧
      (groups.foldl count emission).text = emission.text := by
  induction groups generalizing emission with
  | nil => exact ⟨rfl, rfl⟩
  | cons g gs ih =>
      obtain ⟨htasks, htext⟩ := ih (emission.count g)
      cases g <;> exact ⟨htasks, htext⟩

def emit (emission : Emission) (groups : List Group) (text : List Char) : Emission :=
  (groups.foldl count emission).write text

theorem emit_emit (emission : Emission) (groups groups' : List Group) (text text' : List Char) :
    (emission.emit groups text).emit groups' text' =
      emission.emit (groups ++ groups') (text ++ text') := by
  have hwrite (e : Emission) :
      groups'.foldl count (e.write text) = (groups'.foldl count e).write text := by
    induction groups' generalizing e with
    | nil => rfl
    | cons g gs ih =>
        rw [List.foldl_cons, List.foldl_cons, ← ih]
        cases g <;> rfl
  rw [emit, emit, emit, hwrite, List.foldl_append, write, write, write, List.append_assoc]

theorem emit_push (emission : Emission) (task : Task) (groups : List Group) (text : List Char) :
    (emission.push task).emit groups text = (emission.emit groups text).push task := by
  have hpush : groups.foldl count (emission.push task) =
      (groups.foldl count emission).push task := by
    induction groups generalizing emission with
    | nil => rfl
    | cons g gs ih =>
        rw [List.foldl_cons, List.foldl_cons, ← ih]
        cases g <;> rfl
  rw [emit, emit, hpush]
  rfl

theorem emit_pushEdges (emission : Emission) (edges : List ((Key × Node) × Nat)) (first : Bool)
    (groups : List Group) (text : List Char) :
    (emission.pushEdges edges first).emit groups text =
      (emission.emit groups text).pushEdges edges first := by
  induction edges with
  | nil => rfl
  | cons edge edges ih =>
      rw [pushEdges, List.foldr_cons, emit_push, ← pushEdges, ih]
      rfl

theorem writeEnd_eq_emit (route : Option Nat) (next : Nat) (emission : Emission) :
    emission.writeEnd route = emission.emit (route.map Group.route).toList
      (Pattern.barred true (Pattern.endings route next)) := by
  cases route with
  | none => simp [writeEnd, emit, write, Pattern.endings, Pattern.barred]
  | some index => rfl

theorem writeKey_eq_emit (key : Key) (slot : Option Nat) (next : Nat) (emission : Emission) :
    emission.writeKey key slot = emission.emit (slot.map Group.slot).toList
      (if slot.isSome then Pattern.capture next key.pattern else key.pattern).text := by
  cases slot with
  | none => simp [writeKey, emit, Key.text_pattern]
  | some slot => simp [writeKey, emit, count, write, Pattern.text, Key.text_pattern]

/-- The edges that were put on the stack are written as alternatives. -/
def WritesEdges (edges : Forest) : Prop :=
  ∀ (place next : Nat) (first : Bool) (emission : Emission),
    (emission.pushEdges (edges.edges.zipIdx place) first).run =
      (emission.emit edges.groups
        (Pattern.barred (first && place == 0) (edges.patterns next))).run

/-- From a node on, the run writes what the node is read as. -/
theorem run_emitNode_of {node : Node} (h : WritesEdges node.children) (next : Nat)
    (emission : Emission) :
    (emission.emitNode node).run = (emission.emit node.groups (node.reading next).text).run := by
  have hopened (opened : Emission) :
      ((opened.writeEnd node.route).pushEdges node.children.edges.zipIdx node.route.isNone).run =
        (opened.emit node.groups (Pattern.barred true (Pattern.endings node.route next ++
          node.children.patterns (next + node.route.toList.length)))).run := by
    have hfirst : (true && (Pattern.endings node.route next).isEmpty) =
        (node.route.isNone && 0 == 0) := by
      cases node.route <;> rfl
    rw [h 0 (next + node.route.toList.length), writeEnd_eq_emit _ next, emit_emit,
      Pattern.barred_append, hfirst, Node.groups]
  rw [emitNode, Node.reading, Pattern.text_branch, node.length_alternatives]
  by_cases hnone : node.children.edges.length + node.route.toList.length = 0
  · -- nothing is written, and there is nothing to read
    obtain ⟨slot, route, children⟩ := node
    obtain ⟨hchildren, hroute⟩ := Nat.add_eq_zero_iff.1 hnone
    cases children with
    | node => simp [Forest.edges] at hchildren
    | nil =>
        cases route with
        | some index => simp at hroute
        | none =>
            simp [Forest.edges, Node.groups, Forest.groups, Pattern.endings, Forest.patterns,
              Pattern.barred, emit, write]
  · rw [if_neg hnone, hopened]
    by_cases hmany : 1 < node.children.edges.length + node.route.toList.length
    · rw [if_pos hmany, if_pos hmany, emit_push, run_push]
      show (((emission.emit [] ['(', '?', ':']).emit node.groups _).emit [] [')']).run = _
      rw [emit_emit, emit_emit, List.nil_append, List.append_nil, List.append_assoc]
    · rw [if_neg hmany, if_neg hmany]

theorem writesEdges (edges : Forest) : WritesEdges edges := by
  intro place next first emission
  induction edges generalizing place next first emission with
  | nil =>
      simp [pushEdges, Forest.edges, Forest.groups, Forest.patterns, Pattern.barred, emit, write]
  | node key slot route children siblings ihc ihs =>
      -- the edge is written, then all that stands behind it, and then the siblings
      have hpushed : emission.pushEdges
          ((Forest.node key slot route children siblings).edges.zipIdx place) first =
            (emission.pushEdges (siblings.edges.zipIdx (place + 1)) first).push
              (.edge key { slot, route, children } (first && place == 0)) := rfl
      have hstep (e : Emission) (f : Bool) :
          (e.push (.edge key { slot, route, children } f)).step =
            (((if f then e else e.write ['|']).writeKey key slot).push
              (.node { slot, route, children })) := rfl
      have hnode (e : Emission) : (e.push (.node { slot, route, children })).step.run = _ :=
        @run_emitNode_of { slot, route, children } ihc (next + slot.toList.length) e
      have hbar (e : Emission) (f : Bool) :
          (if f then e else e.write ['|']) = e.emit [] (if f then [] else ['|']) := by
        cases f <;> simp [emit, write]
      rw [hpushed, run_push, hstep, run_push, hnode, hbar, writeKey_eq_emit _ _ next, emit_emit,
        emit_emit, emit_pushEdges, ihs (place + 1)
          (next + slot.toList.length + route.toList.length + children.groups.length), emit_emit]
      simp [Forest.groups, Forest.patterns, Pattern.barred, Pattern.text, Node.groups, Node.reading]

/-- Done with all that stands behind an edge, the run has written what it is read as. -/
theorem run_emitNode (node : Node) (next : Nat) (emission : Emission) :
    (emission.emitNode node).run = (emission.emit node.groups (node.reading next).text).run :=
  run_emitNode_of (writesEdges node.children) next emission

theorem run_node (node : Node) :
    run { tasks := [.node node] } =
      ({ tasks := [] } : Emission).emit node.groups (node.reading 1).text := by
  have hstart : ({ tasks := [.node node] } : Emission).run =
      (({ tasks := [] } : Emission).emitNode node).run := run_push { tasks := [] } (.node node)
  have htasks : (({ tasks := [] } : Emission).emit node.groups (node.reading 1).text).tasks = [] :=
    (foldl_count node.groups _).1
  rw [hstart, run_emitNode node 1, run, if_pos htasks]

end Emission

/-! ### The list of routes -/

theorem trimEnd_concat_some {α : Type} (as : List (Option α)) (a : α) :
    trimEnd (as ++ [some a]) = as ++ [some a] := by
  induction as with
  | nil => rfl
  | cons here rest ih => cases rest <;> cases here <;> simp_all [trimEnd]

theorem trimEnd_concat_none {α : Type} (as : List (Option α)) :
    trimEnd (as ++ [none]) = trimEnd as := by
  induction as with
  | nil => rfl
  | cons here rest ih => simp only [List.cons_append, trimEnd, ih]

theorem trimEnd_append_replicate {α : Type} (as : List (Option α)) :
    (trimEnd as).length ≤ as.length ∧
      trimEnd as ++ List.replicate (as.length - (trimEnd as).length) none = as := by
  induction as using List.reverseRecOn with
  | nil => exact ⟨Nat.le_refl 0, rfl⟩
  | append_singleton as here ih =>
      cases here with
      | some a => simp [trimEnd_concat_some]
      | none =>
          obtain ⟨hle, has⟩ := ih
          rw [trimEnd_concat_none, List.length_append, List.length_singleton,
            Nat.succ_sub hle, List.replicate_succ', ← List.append_assoc, has]
          exact ⟨Nat.le_succ_of_le hle, rfl⟩

/-- A value that is put behind the end of a list stands there, and all in between is `none`. -/
theorem putAt_trimEnd {α : Type} (as : List (Option α)) (a : α) :
    putAt (trimEnd as) as.length a = as ++ [some a] := by
  obtain ⟨hle, has⟩ := trimEnd_append_replicate as
  rw [putAt, Nat.succ_sub hle, List.replicate_succ', ← List.append_assoc, has]
  simp

theorem getD_putAt {α : Type} (as : List (Option α)) (i j : Nat) (a : α) :
    (putAt as i a).getD j none = if j = i then some a else as.getD j none := by
  rw [putAt, List.getD_eq_getElem?_getD, List.getD_eq_getElem?_getD]
  by_cases hj : j = i
  · subst hj
    have hlt : j < (as ++ List.replicate (j + 1 - as.length) none).length := by
      rw [List.length_append, List.length_replicate]
      omega
    simp [List.getElem?_set_self hlt]
  · rw [List.getElem?_set_ne (Ne.symm hj), if_neg hj, List.getElem?_append]
    split
    · rfl
    · next hle =>
        rw [List.getElem?_replicate, List.getElem?_eq_none (Nat.not_lt.1 hle)]
        split <;> rfl

theorem length_putAt {α : Type} (as : List (Option α)) (i : Nat) (a : α) :
    (putAt as i a).length = max as.length (i + 1) := by
  rw [putAt, List.length_set, List.length_append, List.length_replicate]
  omega

namespace Emission

/-- The groups have been counted: each has the next ordinal, and routes and slots lead to theirs. -/
structure Counted (groups : List Group) (emission : Emission) : Prop where
  captures : emission.captures = groups.length
  routes : emission.routes = Composite.routeOf { pattern := none, groups, slots := 0 }
  ordinals : groups.Nodup → ∀ s, emission.ordinals.getD s none =
    Composite.ordinalOf? { pattern := none, groups, slots := 0 } s

theorem ordinalOf?_concat (groups : List Group) (g : Group) (s : Nat) :
    Composite.ordinalOf? { pattern := none, groups := groups ++ [g], slots := 0 } s =
      (Composite.ordinalOf? { pattern := none, groups, slots := 0 } s).or
        (if g = .slot s then some (groups.length + 1) else none) := by
  simp only [Composite.ordinalOf?, List.idxOf?, List.findIdx?_append, List.findIdx?_singleton]
  by_cases hg : g = .slot s
  · simp [hg, Nat.add_comm]
  · simp [hg]

theorem Counted.count {groups : List Group} {emission : Emission} (h : Counted groups emission)
    (g : Group) : Counted (groups ++ [g]) (emission.count g) := by
  obtain ⟨hcaptures, hroutes, hordinals⟩ := h
  constructor
  case captures => cases g <;> simp [Emission.count, countRoute, countSlot, hcaptures]
  case routes =>
    have hlength (f : Group → Option Nat) :
        emission.captures + 1 = (none :: groups.map f).length := by
      simp [hcaptures]
    cases g with
    | route index =>
        simp only [Emission.count, countRoute, hroutes, Composite.routeOf, List.map_append,
          List.map_cons, List.map_nil, ← List.cons_append, trimEnd_concat_some]
        rw [hlength, putAt_trimEnd]
    | slot s =>
        simp only [Emission.count, countSlot, hroutes, Composite.routeOf, List.map_append,
          List.map_cons, List.map_nil, ← List.cons_append, trimEnd_concat_none]
  case ordinals =>
    intro hnodup s
    obtain ⟨hgroups, hnot⟩ : groups.Nodup ∧ g ∉ groups := by
      simpa [List.nodup_append, imp_not_comm] using hnodup
    rw [ordinalOf?_concat, ← hordinals hgroups s]
    cases g with
    | route index => simp [Emission.count, countRoute]
    | slot s' =>
        simp only [Emission.count, countSlot, getD_putAt, hcaptures]
        by_cases hs : s = s'
        · -- the slot has had no ordinal yet
          subst hs
          have hnone : emission.ordinals.getD s none = none := by
            rw [hordinals hgroups s, Composite.ordinalOf?, List.idxOf?_eq_none_iff.2 hnot]
            rfl
          rw [if_pos rfl, hnone, if_pos rfl, Option.none_or]
        · simp [hs, Ne.symm hs]

theorem counted (groups : List Group) :
    Counted groups (groups.foldl Emission.count { tasks := [] }) := by
  induction groups using List.reverseRecOn with
  | nil => exact ⟨rfl, rfl, fun _ s => by simp [Composite.ordinalOf?]⟩
  | append_singleton groups g ih =>
      rw [List.foldl_append]
      exact ih.count g

theorem length_ordinals_le {groups : List Group} {emission : Emission} {n : Nat}
    (h : emission.ordinals.length ≤ n) (hlt : ∀ s, Group.slot s ∈ groups → s < n) :
    (groups.foldl count emission).ordinals.length ≤ n := by
  induction groups generalizing emission with
  | nil => exact h
  | cons g gs ih =>
      refine ih ?_ fun s hs => hlt s (List.mem_cons_of_mem g hs)
      cases g with
      | route index => exact h
      | slot s =>
          have hs := hlt s List.mem_cons_self
          rw [count, countSlot, length_putAt]
          omega

end Emission

theorem append_replicate_eq_map {α : Type} {as : List (Option α)} {n : Nat} (h : as.length ≤ n) :
    as ++ List.replicate (n - as.length) none = (List.range n).map (as.getD · none) := by
  refine List.ext_getElem (by simp [h]) fun i hi hi' => ?_
  rw [List.getElem_map, List.getElem_range, List.getElem_append]
  split
  · next hlt => rw [List.getD_eq_getElem?_getD, List.getElem?_eq_getElem hlt, Option.getD_some]
  · next hlt =>
      rw [List.getElem_replicate, List.getD_eq_getElem?_getD,
        List.getElem?_eq_none (Nat.not_lt.1 hlt), Option.getD_none]

namespace Trie

variable {trie : Trie}

/-- The text is that of the composite pattern; there is none if nothing is written. -/
theorem text_compile (trie : Trie) :
    trie.compile.text = trie.composite.pattern.map Pattern.text := by
  have hnil := Pattern.text_branch_eq_nil_iff
    (trie.root.text_ne_nil 1 (1 + trie.root.route.toList.length))
  have hrun : (Emission.run { tasks := [.node trie.root] }).text = (trie.root.reading 1).text := by
    rw [Emission.run_node, Emission.emit, Emission.write, (Emission.foldl_count _ _).2,
      List.nil_append]
  simp only [compile, composite, hrun, Node.reading, List.isEmpty_iff, hnil]
  split <;> rfl

theorem routes_compile (trie : Trie) : trie.compile.routes = trie.composite.routeOf := by
  rw [compile, Emission.run_node]
  exact (Emission.counted trie.composite.groups).routes

theorem ordinals_compile (hnodup : trie.composite.groups.Nodup)
    (hlt : ∀ s, Group.slot s ∈ trie.composite.groups → s < trie.slots) :
    trie.compile.ordinals = trie.composite.slotOrdinals := by
  have hle : (trie.composite.groups.foldl Emission.count { tasks := [] }).ordinals.length ≤
      trie.slots := Emission.length_ordinals_le (Nat.zero_le _) hlt
  rw [compile, Emission.run_node]
  refine (append_replicate_eq_map hle).trans ?_
  refine List.map_congr_left fun s _ => ?_
  exact (Emission.counted trie.composite.groups).ordinals hnodup s

end Trie

end PathRouter
