import PathRouter.Proofs.Trie.Grown
import PathRouter.Trie.Place

/-!
Merging in one walk comes to the same as checking first and merging then. The walk can not know
beforehand that its path is refused, but the nodes that it adds are new, and nothing conflicts with
a node that has nothing. So a walk that adds a node succeeds, and one that fails has only claimed
slots of nodes that were there. The tries that calls lead to are therefore those of `Grown`.
-/

namespace PathRouter

namespace Forest

theorem set_set (edges : Forest) (key : Key) (old new : Node) :
    (edges.set key old).set key new = edges.set key new := by
  induction edges with
  | nil => simp [set]
  | node k slot route children siblings _ ih =>
      by_cases hk : key = k
      · simp [set, hk]
      · by_cases hlt : key.rank < k.rank
        · simp [set, hk, hlt]
        · simp [set, hk, hlt, ih]

/-- In a proper forest, setting a key to the node that is there changes nothing. -/
theorem Proper.set_eq_self {edges : Forest} (h : edges.Proper) {key : Key} {node : Node}
    (hget : edges.get? key = some node) : edges.set key node = edges := by
  induction edges with
  | nil => simp at hget
  | node k slot route children siblings _ ih =>
      by_cases hk : key = k
      · rw [get?, if_pos hk, Option.some.injEq] at hget
        simp [Forest.set, hk, ← hget]
      · rw [get?, if_neg hk] at hget
        have hlt : k.rank < key.rank := h.1 key (mem_keys_of_get? hget)
        have hnot : ¬key.rank < k.rank := by omega
        rw [Forest.set, if_neg hk, if_neg hnot, ih h.2.2.2 hget]

end Forest

namespace Node

theorem admits_empty (keys : List Key) : ({} : Node).admits keys = true := by
  cases keys with
  | nil => rfl
  | cons key rest =>
      show (!Forest.nil.refuses key) = true
      cases key <;> rfl

theorem admits_cons_iff {node : Node} {key : Key} {rest : List Key} :
    node.admits (key :: rest) = true ↔
      ((node.children.get? key).isSome ∨ node.children.refuses key = false) ∧
        ((node.children.get? key).getD {}).admits rest = true := by
  cases hget : node.children.get? key <;> simp [admits, hget, admits_empty]

theorem admits_claimSlot (node : Node) (step : Step) (next : Nat) (keys : List Key) :
    (node.claimSlot step next).1.admits keys = node.admits keys := by
  cases keys <;> simp [admits]

/-- A slot may be claimed before the path is grafted or after it. -/
theorem claimSlot_graft (node : Node) (step : Step) (next index : Nat) (keys : List Key) :
    (node.graft index keys).claimSlot step next =
      ((node.claimSlot step next).1.graft index keys, (node.claimSlot step next).2) := by
  cases keys <;> cases hslot : node.slot <;> cases hname : step.name? <;>
    simp [graft, claimSlot, hslot, hname]

@[simp] theorem slot_graft (node : Node) (index : Nat) (keys : List Key) :
    (node.graft index keys).slot = node.slot := by
  cases keys <;> rfl

@[simp] theorem slot_claimSlots (node : Node) (steps : List Step) (next : Nat) :
    (node.claimSlots steps next).1.slot = node.slot := by
  cases steps with
  | nil => rfl
  | cons step rest => cases hget : node.children.get? step.key <;> simp [claimSlots, hget]

end Node

namespace Trie

theorem run_below {α : Type} (key : Key) (action : EStateM TrieError Trie α) (trie : Trie) :
    (below key action).run trie =
      match action.run { trie with root := (trie.root.children.get? key).getD {} } with
      | .ok a after => .ok a { after with
          root := { trie.root with children := trie.root.children.set key after.root } }
      | .error e after => .error e { after with
          root := { trie.root with children := trie.root.children.set key after.root } } := rfl

theorem run_claim (step : Step) (trie : Trie) : (claim step).run trie =
    .ok ((step.name?.bind fun name =>
        (trie.root.claimSlot step trie.slots).1.slot.map (name, ·)).toList)
      ⟨(trie.root.claimSlot step trie.slots).1, (trie.root.claimSlot step trie.slots).2⟩ := rfl

/-! ### Walks that merge -/

/-- A walk that merges goes on along an edge that is there, or that is not refused. -/
theorem run_walk_cons {index : Nat} {step : Step} {rest : List Step} {trie : Trie}
    (h : (trie.root.children.get? step.key).isSome ∨
      trie.root.children.refuses step.key = false) :
    (walk index false (step :: rest)).run trie =
      (below step.key do return (← claim step) ++ (← walk index false rest)).run trie := by
  have hpasses : ((trie.root.children.get? step.key).isNone &&
      trie.root.children.refuses step.key) = false := by
    rcases h with hsome | hfree
    · rw [← Option.not_isSome, hsome]
      rfl
    · rw [hfree, Bool.and_false]
  rw [walk, EStateM.run_bind, EStateM.run_get]
  simp only [hpasses, Bool.and_false, Bool.false_eq_true, if_false]

theorem run_claim_walk {index : Nat} {step : Step} {rest : List Step} {trie : Trie} :
    (do return (← claim step) ++ (← walk index false rest) : EStateM TrieError Trie _).run trie =
      match (walk index false rest).run
        ⟨(trie.root.claimSlot step trie.slots).1, (trie.root.claimSlot step trie.slots).2⟩ with
      | .ok names after => .ok ((step.name?.bind fun name =>
          (trie.root.claimSlot step trie.slots).1.slot.map (name, ·)).toList ++ names) after
      | .error e after => .error e after := by
  rw [EStateM.run_bind, run_claim]
  simp only [EStateM.run_bind]
  split <;> simp_all

/-- A walk that merges an admitted path leaves what grafting the path and claiming its slots after
that would leave. -/
theorem run_walk_of_admits (index : Nat) {steps : List Step} {trie : Trie}
    (h : trie.root.admits (steps.map Step.key) = true) : (walk index false steps).run trie =
      let grown := (trie.root.graft index (steps.map Step.key)).claimSlots steps trie.slots
      .ok (grown.1.bindings steps) ⟨grown.1, grown.2⟩ := by
  induction steps generalizing trie with
  | nil =>
      have hroute : trie.root.route.isSome = false := by simpa [Node.admits] using h
      rw [walk, EStateM.run_bind, EStateM.run_get]
      simp only [hroute]
      rfl
  | cons step rest ih =>
      obtain ⟨hgoes, hbelow⟩ := Node.admits_cons_iff.1 h
      -- the slot that is claimed before the walk goes on does not decide how it goes on
      have hclaimed : (((trie.root.children.get? step.key).getD {}).claimSlot step
          trie.slots).1.admits (rest.map Step.key) = true := by
        rw [Node.admits_claimSlot, hbelow]
      rw [run_walk_cons hgoes, run_below, run_claim_walk, ih hclaimed]
      simp [Node.graft, Node.claimSlots, Node.bindings, Forest.get?_set, Forest.set_set,
        Node.claimSlot_graft]

/-- A walk that merges a path that is not admitted adds no node, and claims slots as far as the
tree goes. -/
theorem run_walk_of_not_admits (index : Nat) {steps : List Step} {trie : Trie}
    (h : trie.root.admits (steps.map Step.key) = false) : (walk index false steps).run trie =
      let kept := trie.root.claimSlots steps trie.slots
      .error .conflict ⟨kept.1, kept.2⟩ := by
  induction steps generalizing trie with
  | nil =>
      have hroute : trie.root.route.isSome = true := by simpa [Node.admits] using h
      rw [walk, EStateM.run_bind, EStateM.run_get]
      simp only [hroute]
      rfl
  | cons step rest ih =>
      cases hget : trie.root.children.get? step.key with
      | none =>
          have hrefuses : trie.root.children.refuses step.key = true := by
            simpa [Node.admits, hget] using h
          rw [walk, EStateM.run_bind, EStateM.run_get]
          simp only [hget, hrefuses, Node.claimSlots]
          rfl
      | some child =>
          have hrest : (child.claimSlot step trie.slots).1.admits (rest.map Step.key) = false := by
            rw [Node.admits_claimSlot]
            simpa [Node.admits, hget] using h
          have hclaimed : (walk index false rest).run
              ⟨(child.claimSlot step trie.slots).1, (child.claimSlot step trie.slots).2⟩ = _ :=
            ih hrest
          rw [run_walk_cons (Or.inl (by rw [hget]; rfl)), run_below, run_claim_walk]
          simp only [hget, Option.getD_some, hclaimed, Node.claimSlots]

/-- A merge in one walk is a merge. -/
theorem place_eq_insert (path : Path) (index : Nat) :
    place { path, index } = insert path index := by
  funext trie
  show (walk index false path.steps).run trie = (insert path index).run trie
  simp only [insert, EStateM.run_bind, EStateM.run_get, EStateM.run_set]
  cases hadmits : trie.admits path with
  | true =>
      rw [run_walk_of_admits index hadmits]
      rfl
  | false =>
      rw [run_walk_of_not_admits index hadmits]
      rfl

/-! ### Walks that check -/

/-- A walk that checks changes nothing, because a child that is put back is still in its place. -/
theorem run_walk_check (index : Nat) {steps : List Step} {trie : Trie}
    (h : trie.root.children.Proper) : (walk index true steps).run trie =
      if trie.root.admits (steps.map Step.key) then .ok [] trie else .error .conflict trie := by
  induction steps generalizing trie with
  | nil =>
      rw [walk, EStateM.run_bind, EStateM.run_get]
      cases hroute : trie.root.route with
      | none => simp [Node.admits, hroute]
      | some r =>
          simp only [hroute, Node.admits, List.map_nil]
          rfl
  | cons step rest ih =>
      rw [walk, EStateM.run_bind, EStateM.run_get]
      cases hget : trie.root.children.get? step.key with
      | none =>
          cases hrefuses : trie.root.children.refuses step.key with
          | false => simp [Node.admits, hget, hrefuses]
          | true =>
              simp only [hget, hrefuses, Node.admits, List.map_cons]
              rfl
      | some child =>
          have hbelow : (walk index true rest).run ⟨child, trie.slots⟩ = _ :=
            ih (h.live_of_get? hget).2
          simp only [hget, Option.isNone_some, Bool.false_and, Bool.false_eq_true, if_false,
            if_true, pure_bind, List.nil_append, bind_pure, run_below, Option.getD_some,
            Node.admits, List.map_cons, hbelow]
          cases hadmits : child.admits (rest.map Step.key) with
          | true => simp [h.set_eq_self hget]
          | false => simp [h.set_eq_self hget]

/-- A check in one walk is a check, in a tree that is in order. -/
theorem run_place_check (path : Path) (index : Nat) {trie : Trie}
    (h : trie.root.children.Proper) : (place { path, index, checkOnly := true }).run trie =
      if trie.admits path then .ok [] trie else .error .conflict trie :=
  run_walk_check index h

theorem run_check (path : Path) (trie : Trie) : (check path).run trie =
    if trie.admits path then .ok () trie else .error .conflict trie := by
  simp only [check, EStateM.run_bind, EStateM.run_get]
  split <;> rfl

end Trie

end PathRouter
