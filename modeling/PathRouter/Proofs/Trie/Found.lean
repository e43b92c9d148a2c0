import PathRouter.Proofs.Trie.Captures

/-!
Which route a match of the composite pattern leads to. Two routes may have one index, and then an
index does not tell their groups apart; but the pattern only depends on where the groups are. So the
tree is read with each group named by its own ordinal, and the ordinal of the group in which a match
ends leads back to the index. What is found is the route of the first walk, and slots play no part.
-/

namespace PathRouter

/-! ### Ordinals and groups -/

theorem getElem?_trimEnd {α : Type} (as : List (Option α)) {n : Nat} {a : α} :
    (trimEnd as)[n]? = some (some a) ↔ as[n]? = some (some a) := by
  induction as generalizing n with
  | nil => rfl
  | cons here rest ih =>
      cases here with
      | some b =>
          simp only [trimEnd]
          cases n <;> simp [ih]
      | none =>
          cases hrest : trimEnd rest with
          | nil =>
              simp only [trimEnd, hrest]
              rw [hrest] at ih
              cases n with
              | zero => simp
              | succ n => simpa using (ih (n := n)).2
          | cons b bs =>
              simp only [trimEnd, hrest]
              rw [hrest] at ih
              cases n <;> simp [ih]

namespace Composite

theorem getElem?_routeOf {composite : Composite} {n index : Nat} :
    composite.routeOf[n]? = some (some index) ↔
      ∃ k, n = k + 1 ∧ composite.groups[k]? = some (.route index) := by
  rw [routeOf, getElem?_trimEnd]
  cases n with
  | zero => simp
  | succ k =>
      simp only [List.getElem?_cons_succ, List.getElem?_map, Option.map_eq_some_iff]
      constructor
      · rintro ⟨g, hg, hroute⟩
        cases g with
        | route r =>
            cases hroute
            exact ⟨k, rfl, hg⟩
        | slot s => cases hroute
      · rintro ⟨k', hk, hg⟩
        cases hk
        exact ⟨_, hg, rfl⟩

def groupOf? (composite : Composite) : Nat → Option Group
  | 0 => none
  | k + 1 => composite.groups[k]?

theorem getElem?_routeOf_iff {composite : Composite} {n index : Nat} :
    composite.routeOf[n]? = some (some index) ↔ composite.groupOf? n = some (.route index) := by
  rw [getElem?_routeOf]
  cases n <;> simp [groupOf?]

/-- The index of the route that a text leads to: that of the first group that takes part in the
match and ends a route. -/
def found? (composite : Composite) (text : List Char) : Option Nat := do
  let captures ← (← composite.pattern).search text
  composite.routeOf.zipIdx.findSome? fun entry =>
    if captures.participates entry.2 then entry.1 else none

end Composite

/-- The first value in a list of optional ones in whose place a group takes part, if only one of
these places has a value. -/
theorem Captures.findSome?_zipIdx_eq_some {α : Type} {as : List (Option α)} {captures : Captures}
    {n : Nat} {a : α} (ha : as[n]? = some (some a)) (hn : captures.participates n = true)
    (honly : ∀ m b, captures.participates m = true → as[m]? = some (some b) → m = n) :
    (as.zipIdx.findSome? fun entry =>
      if captures.participates entry.2 then entry.1 else none) = some a := by
  have hmem : (some a, n) ∈ as.zipIdx := List.mem_zipIdx_iff_getElem?.2 ha
  cases hfind : as.zipIdx.findSome? fun entry =>
      if captures.participates entry.2 then entry.1 else none with
  | none =>
      have hno := List.findSome?_eq_none_iff.1 hfind _ hmem
      simp [hn] at hno
  | some b =>
      obtain ⟨⟨x, m⟩, hx, hb⟩ := List.exists_of_findSome?_eq_some hfind
      have hx' := List.mem_zipIdx_iff_getElem?.1 hx
      simp only [Option.ite_none_right_eq_some] at hb
      obtain ⟨hm, rfl⟩ := hb
      obtain rfl := honly m b hm hx'
      rw [ha] at hx'
      exact (Option.some.inj hx').symm

/-! ### Groups named by their ordinals -/

def Group.number : Group → Nat
  | .route n => n
  | .slot n => n

def LeadsTo (groupOf : Nat → Option Group) : List Group → Nat → Prop
  | [], _ => True
  | g :: gs, next => groupOf next = some g ∧ LeadsTo groupOf gs (next + 1)

theorem leadsTo_append {groupOf : Nat → Option Group} {gs gs' : List Group} {next : Nat} :
    LeadsTo groupOf (gs ++ gs') next ↔
      LeadsTo groupOf gs next ∧ LeadsTo groupOf gs' (next + gs.length) := by
  induction gs generalizing next with
  | nil => simp [LeadsTo]
  | cons g gs ih =>
      have hlen : next + (gs.length + 1) = next + 1 + gs.length := by omega
      rw [List.cons_append, LeadsTo, LeadsTo, ih, List.length_cons, and_assoc, hlen]

theorem Composite.leadsTo_groups (composite : Composite) :
    LeadsTo composite.groupOf? composite.groups 1 := by
  have hsuffix (before after : List Group) (h : composite.groups = before ++ after) :
      LeadsTo composite.groupOf? after (before.length + 1) := by
    induction after generalizing before with
    | nil => trivial
    | cons g after ih =>
        refine ⟨by simp [groupOf?, h], ?_⟩
        simpa using ih (before ++ [g]) (by simp [h])
  exact hsuffix [] composite.groups rfl

namespace Forest

/-- The forest with each group named by its ordinal; `next` is the ordinal of the first one. -/
def byOrdinal : Forest → Nat → Forest
  | .nil, _ => .nil
  | .node key slot route children siblings, next =>
    let afterEdge := next + slot.toList.length
    let afterRoute := afterEdge + route.toList.length
    .node key (slot.map fun _ => next) (route.map fun _ => afterEdge)
      (children.byOrdinal afterRoute)
      (siblings.byOrdinal (afterRoute + children.groups.length))

@[simp] theorem keys_byOrdinal (edges : Forest) (next : Nat) :
    (edges.byOrdinal next).keys = edges.keys := by
  induction edges generalizing next with
  | nil => rfl
  | node key slot route children siblings _ ih => simp [byOrdinal, keys, ih]

theorem Proper.byOrdinal {edges : Forest} (h : edges.Proper) (next : Nat) :
    (edges.byOrdinal next).Proper := by
  induction edges generalizing next with
  | nil => trivial
  | node key slot route children siblings ihc ihs =>
      obtain ⟨hrank, hlive, hchildren, hsiblings⟩ := h
      refine ⟨by simpa using hrank, ?_, ihc hchildren _, ihs hsiblings _⟩
      rcases hlive with hroute | hne
      · exact Or.inl (by simpa using hroute)
      · refine Or.inr fun hnil => hne ?_
        cases children with
        | nil => rfl
        | node => simp [Forest.byOrdinal] at hnil

/-- The patterns of a forest do not depend on the names of its groups. -/
theorem labelled_byOrdinal (edges : Forest) (next : Nat) :
    (edges.byOrdinal next).labelled Group.number = edges.patterns next := by
  induction edges generalizing next with
  | nil => rfl
  | node key slot route children siblings ihc ihs =>
      have hedge : Pattern.edge Group.number key (slot.map fun _ => next) =
          if slot.isSome then .capture next key.pattern else key.pattern := by
        cases slot <;> rfl
      have hending (n : Nat) : Pattern.labelledEnding Group.number (route.map fun _ => n) =
          Pattern.endings route n := by
        cases route <;> rfl
      simp only [byOrdinal, labelled, patterns, hedge, hending, ihc, ihs]

theorem groupOf_slot {groupOf : Nat → Option Group} {edges : Forest} {next s : Nat}
    (h : LeadsTo groupOf edges.groups next) (hs : .slot s ∈ (edges.byOrdinal next).groups) :
    ∃ s', groupOf s = some (.slot s') := by
  induction edges generalizing next with
  | nil => simp [byOrdinal, groups] at hs
  | node key slot route children siblings ihc ihs =>
      simp only [groups, leadsTo_append, List.length_append, length_toList_map, ← Nat.add_assoc]
        at h
      obtain ⟨⟨⟨hslot, -⟩, hchildren⟩, hsiblings⟩ := h
      simp only [byOrdinal, groups, List.mem_append, or_assoc] at hs
      rcases hs with hown | hroute | hchild | hsibling
      · cases slot with
        | none => simp at hown
        | some s' =>
            obtain rfl : s = next := by simpa using hown
            exact ⟨s', hslot.1⟩
      · cases route <;> simp at hroute
      · exact ihc hchildren hchild
      · exact ihs hsiblings hsibling

end Forest

/-- The ordinal at the end of a walk that is over leads to its route. -/
theorem Walk.ending_byOrdinal {groupOf : Nat → Option Group} {route : Option Nat} {n : Nat}
    (h : LeadsTo groupOf (route.map Group.route).toList n) (text : List Char) (i : Nat) :
    (Walk.ending text (route.map fun _ => n) i).map (fun w => groupOf w.route) =
      (Walk.ending text route i).map fun w => some (.route w.route) := by
  cases route with
  | none =>
      simp only [Walk.ending]
      split <;> rfl
  | some r =>
      by_cases hi : i = text.length
      · simpa [Walk.ending, hi] using h.1
      · simp [Walk.ending, hi]

/-- The walks are the same, and the ordinals at their ends lead to their routes. -/
theorem Forest.walks_byOrdinal {groupOf : Nat → Option Group} {edges : Forest} {next : Nat}
    (h : LeadsTo groupOf edges.groups next) (text : List Char) (i : Nat) :
    ((edges.byOrdinal next).walks text i).map (fun w => groupOf w.route) =
      (edges.walks text i).map fun w => some (.route w.route) := by
  induction edges generalizing next i with
  | nil => rfl
  | node key slot route children siblings ihc ihs =>
      simp only [groups, leadsTo_append, List.length_append, length_toList_map, ← Nat.add_assoc]
        at h
      obtain ⟨⟨⟨-, hroute⟩, hchildren⟩, hsiblings⟩ := h
      simp only [byOrdinal, walks, List.map_append, List.map_flatMap, List.map_map]
      congr 1
      · refine List.flatMap_congr fun o _ => ?_
        congr 1
        · exact Walk.ending_byOrdinal hroute text o.1
        · exact ihc hchildren o.1
      · exact ihs hsiblings i

namespace Trie

def rootByOrdinal (trie : Trie) : Node where
  route := trie.root.route.map fun _ => 1
  children := trie.root.children.byOrdinal (1 + trie.root.route.toList.length)

variable {trie : Trie}

/-- A search finds the first walk through the tree whose groups are named by their ordinals. -/
theorem search_composite_byOrdinal (h : trie.root.children.Proper) (text : List Char) :
    (trie.composite.pattern.bind (·.search text)) =
      (trie.rootByOrdinal.walks text 0).head?.map fun w =>
        ⟨text, w.marks Group.number text.length⟩ := by
  have hending : Pattern.labelledEnding Group.number trie.rootByOrdinal.route =
      Pattern.endings trie.root.route 1 := by
    rw [rootByOrdinal]
    cases trie.root.route <;> rfl
  have hproper : trie.rootByOrdinal.children.Proper := h.byOrdinal _
  have hsearch := search_labelled Group.number hproper text
  rw [hending, rootByOrdinal, Forest.labelled_byOrdinal] at hsearch
  exact hsearch

/-- The walks through that tree, by the groups at their ends. -/
theorem walks_rootByOrdinal (trie : Trie) (text : List Char) :
    (trie.rootByOrdinal.walks text 0).map (fun w => trie.composite.groupOf? w.route) =
      (trie.root.walks text 0).map fun w => some (.route w.route) := by
  obtain ⟨hroute, hchildren⟩ := leadsTo_append.1 trie.composite.leadsTo_groups
  rw [length_toList_map] at hchildren
  simp only [Node.walks, List.map_append]
  congr 1
  · exact Walk.ending_byOrdinal hroute text 0
  · exact Forest.walks_byOrdinal hchildren text 0

theorem isSome_search_composite (h : trie.root.children.Proper) (text : List Char) :
    (trie.composite.pattern.bind (·.search text)).isSome =
      (trie.root.walks text 0).head?.isSome := by
  have hwalks := congrArg List.head? (trie.walks_rootByOrdinal text)
  rw [List.head?_map, List.head?_map] at hwalks
  rw [search_composite_byOrdinal h]
  simpa using congrArg Option.isSome hwalks

/-- In a match by a walk, the group at its end is the only one that ends a route. -/
theorem eq_of_participates {text : List Char} {w : Walk} (hw : w ∈ trie.rootByOrdinal.walks text 0)
    {n index : Nat} (hroute : trie.composite.groupOf? n = some (.route index))
    (hn : (⟨text, w.marks Group.number text.length⟩ : Captures).participates n = true) :
    n = w.route := by
  obtain ⟨g, hg, rfl⟩ := participates_iff.1 hn
  rcases List.mem_append.1 hg with hslot | hend
  · obtain ⟨v, -, hv⟩ := List.mem_filterMap.1 hslot
    obtain ⟨s, -, rfl⟩ := Option.map_eq_some_iff.1 hv
    -- a slot of the walk is one of the tree, so its number leads to a slot
    have hmem : Group.slot s ∈ trie.rootByOrdinal.children.groups := by
      rcases List.mem_append.1 hw with hending | hchild
      · rw [Walk.groups_of_mem_ending hending] at hg
        simp at hg
      · exact (Forest.groups_sublist hchild).subset hg
    obtain ⟨-, hchildren⟩ := leadsTo_append.1 trie.composite.leadsTo_groups
    rw [length_toList_map] at hchildren
    obtain ⟨s', hs'⟩ := Forest.groupOf_slot hchildren hmem
    rw [Group.number, hs'] at hroute
    cases hroute
  · rw [List.mem_singleton.1 hend]
    rfl

theorem found?_composite (h : trie.root.children.Proper) (text : List Char) :
    trie.composite.found? text = (trie.root.walks text 0).head?.map Walk.route := by
  have hsearch := search_composite_byOrdinal h text
  have hwalks := congrArg List.head? (trie.walks_rootByOrdinal text)
  rw [List.head?_map, List.head?_map] at hwalks
  have hfound : trie.composite.found? text =
      (trie.composite.pattern.bind (·.search text)).bind fun captures =>
        trie.composite.routeOf.zipIdx.findSome? fun entry =>
          if captures.participates entry.2 then entry.1 else none := by
    rw [Option.bind_assoc]
    rfl
  rw [hfound, hsearch]
  cases hhead : (trie.rootByOrdinal.walks text 0).head? with
  | none =>
      rw [hhead] at hwalks
      have hnone : (trie.root.walks text 0).head? = none := by simpa using hwalks.symm
      rw [hnone]
      rfl
  | some w =>
      rw [hhead] at hwalks
      obtain ⟨w', hw', hgroup⟩ := Option.map_eq_some_iff.1 hwalks.symm
      have hmem := List.mem_of_head? hhead
      rw [hw', Option.map_some, Option.bind_some, Option.map_some]
      refine Captures.findSome?_zipIdx_eq_some
        (Composite.getElem?_routeOf_iff.2 hgroup.symm) ?_ fun n index hn hindex => ?_
      · exact participates_iff.2 ⟨.route w.route, by simp [Walk.groups], rfl⟩
      · exact eq_of_participates hmem (Composite.getElem?_routeOf_iff.1 hindex) hn

end Trie

end PathRouter
