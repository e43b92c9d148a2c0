import PathRouter.Proofs.Trie.Walks

/-!
Searching with the composite pattern of a trie. When every group belongs to one node only, its
ordinal is its place among the groups, and a search finds the first walk from the root.
-/

namespace PathRouter

/-- The group belongs to the node that the keys lead to. -/
def Node.Labels (node : Node) (ks : List Key) : Group → Prop
  | .slot s => node.slotAt ks = some s
  | .route r => node.routeAt ks = some r

def Forest.Labels (edges : Forest) (ks : List Key) (g : Group) : Prop :=
  ∃ k rest child, ks = k :: rest ∧ edges.get? k = some child ∧ child.Labels rest g

def Node.Apart (node : Node) : Prop :=
  ∀ g ks ks', node.Labels ks g → node.Labels ks' g → ks = ks'

theorem Node.labels_of_children {node : Node} {ks : List Key} {g : Group}
    (h : node.children.Labels ks g) : node.Labels ks g := by
  obtain ⟨k, rest, child, rfl, hget, hlabels⟩ := h
  cases g with
  | slot s =>
      rw [Labels, slotAt_cons, hget]
      exact hlabels
  | route r =>
      rw [Labels, routeAt_cons, hget]
      exact hlabels

theorem Node.labels_own {slot route : Option Nat} {children : Forest} {g : Group}
    (h : g ∈ (slot.map Group.slot).toList ++ (route.map Group.route).toList) :
    ({ slot, route, children } : Node).Labels [] g := by
  rcases List.mem_append.1 h with h | h
  · obtain ⟨s, rfl, rfl⟩ := Option.map_eq_some_iff.1 (Option.mem_toList.1 h)
    rfl
  · obtain ⟨r, rfl, rfl⟩ := Option.map_eq_some_iff.1 (Option.mem_toList.1 h)
    rfl

theorem Node.labels_cons {node : Node} {k : Key} {rest : List Key} {g : Group}
    (h : node.Labels (k :: rest) g) : node.children.Labels (k :: rest) g := by
  cases hget : node.children.get? k with
  | none => cases g <;> simp [Labels, slotAt_cons, routeAt_cons, hget] at h
  | some child =>
      refine ⟨k, rest, child, rfl, hget, ?_⟩
      cases g with
      | slot s => rwa [Labels, slotAt_cons, hget] at h
      | route r => rwa [Labels, routeAt_cons, hget] at h

theorem Node.mem_own_of_labels {slot route : Option Nat} {children : Forest} {g : Group}
    (h : ({ slot, route, children } : Node).Labels [] g) :
    g ∈ (slot.map Group.slot).toList ++ (route.map Group.route).toList := by
  cases g with
  | slot s =>
      obtain rfl : slot = some s := h
      exact List.mem_append_left _ (List.mem_singleton.2 rfl)
  | route r =>
      obtain rfl : route = some r := h
      exact List.mem_append_right _ (List.mem_singleton.2 rfl)

namespace Forest

theorem mem_groups_of_labels {edges : Forest} {ks : List Key} {g : Group}
    (h : edges.Labels ks g) : g ∈ edges.groups := by
  induction edges generalizing ks with
  | nil =>
      obtain ⟨k, rest, child, -, hget, -⟩ := h
      cases hget
  | node key slot route children siblings ihc ihs =>
      obtain ⟨k, rest, child, rfl, hget, hlabels⟩ := h
      rw [groups, List.mem_append, List.mem_append]
      rw [get?] at hget
      split at hget
      · obtain rfl := Option.some.inj hget
        cases rest with
        | nil => exact Or.inl (Or.inl (Node.mem_own_of_labels hlabels))
        | cons k' rest => exact Or.inl (Or.inr (ihc (Node.labels_cons hlabels)))
      · exact Or.inr (ihs ⟨k, rest, child, rfl, hget, hlabels⟩)

theorem Labels.ne_nil {edges : Forest} {ks : List Key} {g : Group} (h : edges.Labels ks g) :
    ks ≠ [] := by
  obtain ⟨k, rest, child, rfl, -⟩ := h
  simp

theorem get?_siblings {key : Key} {slot route : Option Nat} {children siblings : Forest}
    (h : (node key slot route children siblings).Proper) {k : Key} {child : Node}
    (hget : siblings.get? k = some child) :
    k ≠ key ∧ (node key slot route children siblings).get? k = some child := by
  have hne : k ≠ key := by
    rintro rfl
    exact Nat.lt_irrefl _ (h.1 k (mem_keys_of_get? hget))
  exact ⟨hne, by rw [get?, if_neg hne, hget]⟩

theorem labels_siblings {key : Key} {slot route : Option Nat} {children siblings : Forest}
    (h : (node key slot route children siblings).Proper) {ks : List Key} {g : Group}
    (hlabels : siblings.Labels ks g) :
    ks.head? ≠ some key ∧ (node key slot route children siblings).Labels ks g := by
  obtain ⟨k, rest, child, rfl, hget, hchild⟩ := hlabels
  obtain ⟨hne, hget⟩ := get?_siblings h hget
  exact ⟨by simpa using hne, k, rest, child, rfl, hget, hchild⟩

/-- What belongs to the first node, or to a node below it, is reached along the first key. -/
theorem labels_first {key : Key} {slot route : Option Nat} {children siblings : Forest}
    {ks : List Key} {g : Group} (h : ({ slot, route, children } : Node).Labels ks g) :
    (node key slot route children siblings).Labels (key :: ks) g :=
  ⟨key, ks, _, rfl, by rw [get?, if_pos rfl], h⟩

/-- Every group of a proper forest belongs to one of its nodes. -/
theorem labels_of_mem_groups {edges : Forest} (h : edges.Proper) {g : Group}
    (hg : g ∈ edges.groups) : ∃ ks, edges.Labels ks g := by
  induction edges with
  | nil => simp [groups] at hg
  | node key slot route children siblings ihc ihs =>
      rw [groups, List.mem_append, List.mem_append] at hg
      rcases hg with (hown | hchild) | hsibling
      · exact ⟨[key], labels_first (Node.labels_own hown)⟩
      · obtain ⟨ks, hks⟩ := ihc h.2.2.1 hchild
        exact ⟨key :: ks, labels_first (Node.labels_of_children hks)⟩
      · obtain ⟨ks, hks⟩ := ihs h.2.2.2 hsibling
        exact ⟨ks, (labels_siblings h hks).2⟩

/-- If no group belongs to two nodes, the groups differ from one another. -/
theorem nodup_groups {edges : Forest} (h : edges.Proper)
    (hapart : ∀ g ks ks', edges.Labels ks g → edges.Labels ks' g → ks = ks') :
    edges.groups.Nodup := by
  induction edges with
  | nil => exact List.nodup_nil
  | node key slot route children siblings ihc ihs =>
      have hchildren : children.groups.Nodup := by
        refine ihc h.2.2.1 fun g ks ks' hks hks' => ?_
        have := hapart g _ _ (labels_first (Node.labels_of_children hks))
          (labels_first (Node.labels_of_children hks'))
        exact (List.cons.inj this).2
      have hsiblings : siblings.groups.Nodup := ihs h.2.2.2 fun g ks ks' hks hks' =>
        hapart g ks ks' (labels_siblings h hks).2 (labels_siblings h hks').2
      -- groups of the node itself, of the nodes below it, and of its siblings
      have hbelow : ∀ ks g, ({ slot, route, children } : Node).Labels ks g →
          g ∉ siblings.groups := by
        intro ks g hks hg
        obtain ⟨ks', hks'⟩ := labels_of_mem_groups h.2.2.2 hg
        obtain ⟨hne, hlabels⟩ := labels_siblings h hks'
        have := hapart g _ _ (labels_first hks) hlabels
        exact hne (by rw [← this]; rfl)
      have hself : ∀ g, ({ slot, route, children } : Node).Labels [] g → g ∉ children.groups := by
        intro g hself hg
        obtain ⟨ks, hks⟩ := labels_of_mem_groups h.2.2.1 hg
        have := hapart g _ _ (labels_first hself) (labels_first (Node.labels_of_children hks))
        exact hks.ne_nil (List.cons.inj this).2.symm
      have hown : ((slot.map Group.slot).toList ++ (route.map Group.route).toList).Nodup := by
        cases slot <;> cases route <;> simp
      rw [groups, List.nodup_append, List.nodup_append]
      refine ⟨⟨hown, hchildren, fun g hg g' hg' e => ?_⟩, hsiblings, fun g hg g' hg' e => ?_⟩
      · subst e
        exact hself g (Node.labels_own hg) hg'
      · subst e
        rcases List.mem_append.1 hg with hg | hg
        · exact hbelow [] g (Node.labels_own hg) hg'
        · obtain ⟨ks, hks⟩ := labels_of_mem_groups h.2.2.1 hg
          exact hbelow ks g (Node.labels_of_children hks) hg'

end Forest

namespace Composite

/-- The ordinal of a group: its place in the order of the text, counted from one. -/
def ordinal (composite : Composite) (g : Group) : Nat := composite.groups.idxOf g + 1

theorem exists_ordinalOf? {composite : Composite} {slot : Nat}
    (h : Group.slot slot ∈ composite.groups) : ∃ n, composite.ordinalOf? slot = some n := by
  obtain ⟨k, hk⟩ := Option.isSome_iff_exists.1 (List.isSome_idxOf?.2 h)
  exact ⟨k + 1, by rw [ordinalOf?, hk, Option.map_some]⟩

end Composite

namespace Trie

theorem nodup_groups_composite {trie : Trie} (h : trie.root.children.Proper)
    (hapart : trie.root.Apart) : trie.composite.groups.Nodup := by
  rw [composite, List.nodup_append]
  refine ⟨by cases trie.root.route <;> simp, Forest.nodup_groups h fun g ks ks' hks hks' =>
    hapart g ks ks' (Node.labels_of_children hks) (Node.labels_of_children hks'),
    fun g hg g' hg' e => ?_⟩
  subst e
  obtain ⟨r, hr, rfl⟩ := Option.map_eq_some_iff.1 (Option.mem_toList.1 hg)
  obtain ⟨ks, hks⟩ := Forest.labels_of_mem_groups h hg'
  have hroot : trie.root.Labels [] (.route r) := hr
  exact hks.ne_nil (hapart _ _ _ hroot (Node.labels_of_children hks)).symm

theorem mem_groups_of_routeAt {trie : Trie} {ks : List Key} {r : Nat}
    (h : trie.root.routeAt ks = some r) : Group.route r ∈ trie.composite.groups := by
  rw [composite, List.mem_append]
  cases ks with
  | nil =>
      have hroute : trie.root.route = some r := h
      rw [hroute]
      exact Or.inl (List.mem_singleton.2 rfl)
  | cons k rest =>
      have hlabels : trie.root.Labels (k :: rest) (.route r) := h
      exact Or.inr (Forest.mem_groups_of_labels (Node.labels_cons hlabels))

theorem mem_groups_of_slotAt {trie : Trie} {k : Key} {ks : List Key} {s : Nat}
    (h : trie.root.slotAt (k :: ks) = some s) : Group.slot s ∈ trie.composite.groups := by
  have hlabels : trie.root.Labels (k :: ks) (.slot s) := h
  rw [composite, List.mem_append]
  exact Or.inr (Forest.mem_groups_of_labels (Node.labels_cons hlabels))

theorem exists_labels_of_mem_groups {trie : Trie} (h : trie.root.children.Proper) {g : Group}
    (hg : g ∈ trie.composite.groups) : ∃ ks, trie.root.Labels ks g := by
  rcases List.mem_append.1 hg with hroute | hchild
  · obtain ⟨r, hr, rfl⟩ := Option.map_eq_some_iff.1 (Option.mem_toList.1 hroute)
    exact ⟨[], hr⟩
  · obtain ⟨ks, hks⟩ := Forest.labels_of_mem_groups h hchild
    exact ⟨ks, Node.labels_of_children hks⟩

/-- Counting the groups is one way to number them, for the whole pattern too. -/
theorem pattern_composite {trie : Trie} {ord : Group → Nat}
    (h : Numbered ord trie.composite.groups 1) :
    trie.composite.pattern =
      if (Pattern.labelledEnding ord trie.root.route ++ trie.root.children.labelled ord).isEmpty
      then none
      else some (.seq .start (Pattern.branch
        (Pattern.labelledEnding ord trie.root.route ++ trie.root.children.labelled ord))) := by
  obtain ⟨hroute, hchildren⟩ := numbered_append.1 h
  rw [length_toList_map] at hchildren
  have hending : Pattern.endings trie.root.route 1 =
      Pattern.labelledEnding ord trie.root.route := by
    cases hr : trie.root.route with
    | none => rfl
    | some r =>
        rw [hr] at hroute
        simp [Pattern.endings, Pattern.labelledEnding, hroute.1]
  rw [← hending, ← Forest.patterns_eq_labelled hchildren]
  rfl

/-- A search with the patterns below a node, anchored, finds the first walk from there. -/
theorem search_labelled (ord : Group → Nat) {root : Node} (h : root.children.Proper)
    (text : List Char) :
    ((if (Pattern.labelledEnding ord root.route ++ root.children.labelled ord).isEmpty then none
      else some (.seq .start (Pattern.branch
        (Pattern.labelledEnding ord root.route ++ root.children.labelled ord)))).bind
          (Pattern.search · text)) =
      (root.walks text 0).head?.map fun w => ⟨text, w.marks ord text.length⟩ := by
  by_cases hlive : root.route.isSome ∨ root.children ≠ .nil
  · rw [if_neg (by simpa using Forest.labelled_ne_nil ord hlive), Option.bind_some,
      Pattern.search_anchored, Node.outcomes_branch ord ⟨hlive, h⟩]
    simp [Function.comp_def]
  · rw [not_or, not_not] at hlive
    have hnone : root.route = none := by simpa using hlive.1
    simp [hnone, hlive.2, Pattern.labelledEnding, Forest.labelled, Node.walks, Walk.ending,
      Forest.walks]

/-- A search with the composite pattern finds the first walk from the root. -/
theorem search_composite {trie : Trie} (h : trie.root.children.Proper)
    (hnodup : trie.composite.groups.Nodup) (text : List Char) :
    (trie.composite.pattern.bind (·.search text)) =
      (trie.root.walks text 0).head?.map fun w =>
        ⟨text, w.marks trie.composite.ordinal text.length⟩ := by
  have hnumbered : Numbered trie.composite.ordinal trie.composite.groups 1 := numbered_idxOf hnodup
  rw [pattern_composite hnumbered]
  exact search_labelled _ h text

end Trie

end PathRouter
