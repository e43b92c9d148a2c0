import PathRouter.Proofs.Trie.Found
import PathRouter.Proofs.Trie.History

/-!
What is left of a path that is only checked or that is refused. A check leaves nothing. A path that
is refused after the walk has begun leaves slots at nodes that were there, and nothing that a text
could tell: there are no new nodes and no new routes, so all texts lead to the routes they led to
before. In particular no walk ever leaves a branch without a route at its end.
-/

namespace PathRouter

/-! ### Trees without their slots -/

def Forest.bare : Forest → Forest
  | .nil => .nil
  | .node key _ route children siblings => .node key none route children.bare siblings.bare

def Node.bare (node : Node) : Node where
  route := node.route
  children := node.children.bare

namespace Forest

theorem get?_bare (edges : Forest) (key : Key) :
    edges.bare.get? key = (edges.get? key).map Node.bare := by
  induction edges with
  | nil => rfl
  | node k slot route children siblings _ ih =>
      by_cases hk : key = k
      · simp [bare, get?, hk, Node.bare]
      · simp [bare, get?, hk, ih]

theorem bare_set {edges : Forest} (h : edges.Proper) {key : Key} {old new : Node}
    (hget : edges.get? key = some old) (hbare : new.bare = old.bare) :
    (edges.set key new).bare = edges.bare := by
  induction edges with
  | nil => simp at hget
  | node k slot route children siblings _ ih =>
      by_cases hk : key = k
      · rw [get?, if_pos hk, Option.some.injEq] at hget
        rw [← hget] at hbare
        obtain ⟨-, hroute, hchildren⟩ := Node.mk.inj hbare
        simp [set, hk, bare, hroute, hchildren]
      · rw [get?, if_neg hk] at hget
        have hlt : k.rank < key.rank := h.1 key (mem_keys_of_get? hget)
        have hnot : ¬key.rank < k.rank := by omega
        rw [set, if_neg hk, if_neg hnot, bare, bare, ih h.2.2.2 hget]

theorem map_route_walks_bare (edges : Forest) (text : List Char) (i : Nat) :
    (edges.bare.walks text i).map Walk.route = (edges.walks text i).map Walk.route := by
  induction edges generalizing i with
  | nil => rfl
  | node key slot route children siblings ihc ihs =>
      simp only [bare, walks, List.map_append, List.map_flatMap, List.map_map]
      congr 1
      · refine List.flatMap_congr fun o _ => ?_
        congr 1
        exact ihc o.1
      · exact ihs i

end Forest

namespace Node

theorem follow_bare (node : Node) (keys : List Key) :
    node.bare.follow keys = (node.follow keys).map Node.bare := by
  induction keys generalizing node with
  | nil => rfl
  | cons key rest ih =>
      rw [follow_cons, follow_cons, bare, Forest.get?_bare]
      cases node.children.get? key with
      | none => rfl
      | some child => exact ih child

theorem map_route_walks_bare (node : Node) (text : List Char) (i : Nat) :
    (node.bare.walks text i).map Walk.route = (node.walks text i).map Walk.route := by
  rw [walks, walks, List.map_append, List.map_append]
  congr 1
  exact node.children.map_route_walks_bare text i

theorem live_of_follow {node : Node} (h : node.children.Proper) {keys : List Key} (hne : keys ≠ [])
    {child : Node} (hfollow : node.follow keys = some child) : child.Live := by
  induction keys generalizing node with
  | nil => exact absurd rfl hne
  | cons key rest ih =>
      rw [follow_cons] at hfollow
      obtain ⟨next, hget, hrest⟩ := Option.bind_eq_some_iff.1 hfollow
      have hlive := h.live_of_get? hget
      cases rest with
      | nil =>
          obtain rfl := Option.some.inj hrest
          exact hlive
      | cons k rest => exact ih hlive.2 (by simp) hrest

theorem bare_claimSlots {node : Node} (h : node.children.Proper) (steps : List Step)
    (next : Nat) : (node.claimSlots steps next).1.bare = node.bare := by
  induction steps generalizing node next with
  | nil => rfl
  | cons step rest ih =>
      rw [claimSlots]
      cases hget : node.children.get? step.key with
      | none => rfl
      | some child =>
          have hclaimed : (child.claimSlot step next).1.children.Proper := by
            rw [children_claimSlot]
            exact (h.live_of_get? hget).2
          have hbelow := ih hclaimed (child.claimSlot step next).2
          have hbare : (child.claimSlot step next).1.bare = child.bare := by
            rw [bare, bare, route_claimSlot, children_claimSlot]
          rw [bare, bare, Forest.bare_set h hget (hbelow.trans hbare)]

/-- A node gets a slot only from a named step that leads to it. -/
theorem exists_step_of_slotAt_claimSlots {node : Node} {steps : List Step} {next : Nat}
    {ks : List Key} {s : Nat} (hnone : node.slotAt ks = none)
    (hs : (node.claimSlots steps next).1.slotAt ks = some s) :
    ∃ front step, front ++ [step] <+: steps ∧ ks = (front ++ [step]).map Step.key ∧
      step.name?.isSome := by
  induction steps generalizing node next ks with
  | nil =>
      rw [claimSlots, hnone] at hs
      cases hs
  | cons step rest ih =>
      rw [claimSlots] at hs
      cases hget : node.children.get? step.key with
      | none =>
          rw [hget] at hs
          rw [hnone] at hs
          cases hs
      | some child =>
          rw [hget] at hs
          obtain ⟨ks', rfl, hchild, hbelow⟩ := Gains.exists_slotAt_below hget hnone hs
          cases hclaimed : (child.claimSlot step next).1.slotAt ks' with
          | none =>
              obtain ⟨front, last, hleads, rfl, hname⟩ := ih hclaimed hbelow
              exact ⟨step :: front, last, by simpa using hleads, rfl, hname⟩
          | some s' =>
              -- the node is the one that this step leads to, and the step has claimed its slot
              obtain ⟨rfl, -, hname⟩ := eq_nil_of_slotAt_claimSlot hchild hclaimed
              exact ⟨[], step, by simp, rfl, hname⟩

end Node

/-- Only labels have names. -/
theorem key_eq_label_of_mem_stepsOf {tokens : List Token} {step : Step} (h : step ∈ stepsOf tokens)
    (hname : step.name?.isSome) : step.key = .label := by
  induction tokens with
  | nil => simp [stepsOf] at h
  | cons token rest ih =>
      rcases List.mem_cons.1 h with rfl | hrest
      · cases token with
        | param name => rfl
        | char c => simp [Token.step] at hname
        | star => simp [Token.step] at hname
        | tailStar => simp [Token.step] at hname
      · exact ih hrest

theorem Node.getLast?_of_slotAt_claimSlots {node : Node} {path : Path} {next : Nat} {ks : List Key}
    {s : Nat} (hnone : node.slotAt ks = none)
    (hs : (node.claimSlots path.steps next).1.slotAt ks = some s) :
    ks <+: path.keys ∧ ks.getLast? = some .label := by
  obtain ⟨front, step, hleads, rfl, hname⟩ := exists_step_of_slotAt_claimSlots hnone hs
  have hstep : step ∈ path.steps := hleads.subset (by simp)
  exact ⟨hleads.map Step.key, by simpa using key_eq_label_of_mem_stepsOf hstep hname⟩

/-! ### Branches end in routes -/

namespace Pattern

/-- Whatever branch is taken through the pattern, it ends at the end of a route. -/
def EndsInRoutes : Pattern → Prop
  | .seq p q => (p = .stop ∧ ∃ n, q = .capture n .empty) ∨ q.EndsInRoutes
  | .alt p q => p.EndsInRoutes ∧ q.EndsInRoutes
  | .group p => p.EndsInRoutes
  | _ => False

theorem endsInRoutes_choice {ps : List Pattern} (hne : ps ≠ []) (h : ∀ p ∈ ps, p.EndsInRoutes) :
    (choice ps).EndsInRoutes := by
  induction ps with
  | nil => exact absurd rfl hne
  | cons p ps ih =>
      cases ps with
      | nil => exact h p List.mem_cons_self
      | cons q ps =>
          obtain ⟨hp, hps⟩ := List.forall_mem_cons.1 h
          exact ⟨hp, ih (by simp) hps⟩

theorem endsInRoutes_branch {ps : List Pattern} (hne : ps ≠ []) (h : ∀ p ∈ ps, p.EndsInRoutes) :
    (branch ps).EndsInRoutes := by
  match ps with
  | [] => exact absurd rfl hne
  | [p] => exact endsInRoutes_choice hne h
  | p :: q :: ps => exact endsInRoutes_choice hne h

theorem endsInRoutes_endings {route : Option Nat} {n : Nat} {p : Pattern}
    (h : p ∈ endings route n) : p.EndsInRoutes := by
  rw [eq_terminal_of_mem_endings h]
  exact Or.inl ⟨rfl, n, rfl⟩

end Pattern

theorem Forest.endings_append_patterns_ne_nil {route : Option Nat} {children : Forest} {n m : Nat}
    (h : route.isSome ∨ children ≠ .nil) :
    Pattern.endings route n ++ children.patterns m ≠ [] := by
  rcases h with hroute | hchildren
  · obtain ⟨r, rfl⟩ := Option.isSome_iff_exists.1 hroute
    simp [Pattern.endings]
  · cases children with
    | nil => exact absurd rfl hchildren
    | node => simp [patterns]

theorem Forest.Proper.endsInRoutes {edges : Forest} (h : edges.Proper) {next : Nat} {p : Pattern}
    (hp : p ∈ edges.patterns next) : p.EndsInRoutes := by
  induction edges generalizing next p with
  | nil => simp [patterns] at hp
  | node key slot route children siblings ihc ihs =>
      obtain ⟨-, hlive, hchildren, hsiblings⟩ := h
      rcases List.mem_cons.1 hp with rfl | hp
      · refine Or.inr (Pattern.endsInRoutes_branch
          (endings_append_patterns_ne_nil hlive) fun q hq => ?_)
        rcases List.mem_append.1 hq with hending | hchild
        · exact Pattern.endsInRoutes_endings hending
        · exact ihc hchildren hchild
      · exact ihs hsiblings hp

namespace Trie

variable {trie trie' : Trie}

theorem endsInRoutes_composite (h : trie.root.children.Proper) {pattern : Pattern}
    (hpattern : trie.composite.pattern = some pattern) : pattern.EndsInRoutes := by
  rw [composite] at hpattern
  simp only [Option.ite_none_left_eq_some, Option.some.injEq, List.isEmpty_iff] at hpattern
  obtain ⟨hne, rfl⟩ := hpattern
  refine Or.inr (Pattern.endsInRoutes_branch hne fun p hp => ?_)
  rcases List.mem_append.1 hp with hending | hchild
  · exact Pattern.endsInRoutes_endings hending
  · exact h.endsInRoutes hchild

/-- Texts lead to the same routes in tries that differ in their slots only. -/
theorem found?_eq_of_bare (h : trie.root.children.Proper) (h' : trie'.root.children.Proper)
    (hbare : trie'.root.bare = trie.root.bare) (text : List Char) :
    (trie'.composite.pattern.bind (·.search text)).isSome =
        (trie.composite.pattern.bind (·.search text)).isSome ∧
      trie'.composite.found? text = trie.composite.found? text := by
  have hwalks : (trie'.root.walks text 0).map Walk.route =
      (trie.root.walks text 0).map Walk.route := by
    rw [← Node.map_route_walks_bare, hbare, Node.map_route_walks_bare]
  have hhead := congrArg List.head? hwalks
  rw [List.head?_map, List.head?_map] at hhead
  rw [isSome_search_composite h', isSome_search_composite h, found?_composite h',
    found?_composite h, hhead]
  exact ⟨by simpa using congrArg Option.isSome hhead, rfl⟩

/-- What a path leaves that is refused: the nodes and the routes as they were, and at most slots of
nodes that had none and that named steps lead to. -/
structure LeftBy (path : Path) (trie trie' : Trie) : Prop where
  bare : trie'.root.bare = trie.root.bare
  slots_le : trie.slots ≤ trie'.slots
  kept : ∀ ks s, trie.root.slotAt ks = some s → trie'.root.slotAt ks = some s
  claimed : ∀ ks s, trie.root.slotAt ks = none → trie'.root.slotAt ks = some s →
    (trie.root.follow ks).isSome ∧ ks <+: path.keys ∧ ks.getLast? = some .label ∧ trie.slots ≤ s ∧
      s < trie'.slots

theorem leftBy_of_insert (h : trie.root.children.Proper) {path : Path} {index : Nat}
    {e : TrieError} (hinsert : (insert path index).run trie = .error e trie') :
    LeftBy path trie trie' := by
  obtain ⟨-, rfl⟩ := insert_eq_error hinsert
  have hgains := Node.gains_claimSlots trie.root path.steps trie.slots
  have hbare := Node.bare_claimSlots h path.steps trie.slots
  constructor
  case bare => exact hbare
  case slots_le => exact hgains.le
  case kept => exact hgains.kept
  case claimed =>
    intro ks s hnone hs
    obtain ⟨hleads, hlabel⟩ := Node.getLast?_of_slotAt_claimSlots hnone hs
    refine ⟨?_, hleads, hlabel, hgains.fresh _ s hnone hs⟩
    -- the node with the slot is there afterwards, and so it was before
    have hfollow := Node.follow_bare trie.root ks
    rw [← hbare, Node.follow_bare] at hfollow
    rw [Node.slotAt] at hs
    obtain ⟨node, hnode, -⟩ := Option.bind_eq_some_iff.1 hs
    rw [hnode] at hfollow
    simpa using congrArg Option.isSome hfollow.symm

/-- Whatever calls a trie comes from, a check leaves it as it is, and a path that is refused leaves
nothing that a text could tell; and behind every edge there is a route, so that every branch of the
composite pattern ends in one. -/
theorem refused_leaves_no_route (calls : List Insertion) (path : Path) (index : Nat) :
    let trie := (History.ofCalls calls).trie
    ((place { path, index, checkOnly := true }).run trie = .ok [] trie ∨
      (place { path, index, checkOnly := true }).run trie = .error .conflict trie) ∧
    (∀ e trie', (place { path, index }).run trie = .error e trie' →
      LeftBy path trie trie' ∧
      ∀ text, (trie'.composite.pattern.bind (·.search text)).isSome =
          (trie.composite.pattern.bind (·.search text)).isSome ∧
        trie'.composite.found? text = trie.composite.found? text) ∧
    (∀ keys node, keys ≠ [] → trie.root.follow keys = some node →
      ∃ rest, (node.routeAt rest).isSome) ∧
    ∀ pattern, trie.composite.pattern = some pattern → pattern.EndsInRoutes := by
  intro trie
  have hsound := History.sound_ofCalls calls
  have hproper : trie.root.children.Proper := hsound.proper
  refine ⟨?_, ?_, ?_, ?_⟩
  · rw [run_place_check path index hproper]
    cases trie.admits path with
    | true => exact Or.inl rfl
    | false => exact Or.inr rfl
  · intro e trie' hplace
    rw [place_eq_insert] at hplace
    have hleft := leftBy_of_insert hproper hplace
    have hproper' : trie'.root.children.Proper := (hsound.refuse hplace).proper
    exact ⟨hleft, found?_eq_of_bare hproper hproper' hleft.bare⟩
  · intro keys node hne hfollow
    exact (Node.live_of_follow hproper hne hfollow).exists_route
  · intro pattern hpattern
    exact endsInRoutes_composite hproper hpattern

/-- A path that fails only where it ends has given a slot to an anonymous segment on the way. -/
theorem refused_leaves_no_route_slot :
    let trie := (History.ofCalls [{ path := "/a/*/b".toList, index := 0 }]).trie
    ∃ trie', (place { path := "/a/:id/b".toList, index := 1 }).run trie = .error .conflict trie' ∧
      trie.slots = 0 ∧ trie'.slots = 1 ∧ LeftBy "/a/:id/b".toList trie trie' ∧
      trie'.composite.found? "/a/x/b".toList = trie.composite.found? "/a/x/b".toList := by
  intro trie
  have hadmits : trie.admits "/a/:id/b".toList = false := by decide +kernel
  obtain ⟨hleft, hfound⟩ := (refused_leaves_no_route [{ path := "/a/*/b".toList, index := 0 }]
    "/a/:id/b".toList 1).2.1 _ _ (run_walk_of_not_admits 1 hadmits)
  exact ⟨_, run_walk_of_not_admits 1 hadmits, by decide +kernel, by decide +kernel, hleft,
    (hfound _).2⟩

end Trie

end PathRouter
