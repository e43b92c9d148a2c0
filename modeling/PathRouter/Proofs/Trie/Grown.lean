import PathRouter.Proofs.Run
import PathRouter.Proofs.Trie.Conflicts

/-!
Tries that paths were checked and merged in. What a call does to a trie is told for each outcome;
whatever the calls were, the tree stays in order, and it has the routes of the merged paths alone.
-/

namespace PathRouter

namespace Trie

theorem check_eq_ok {path : Path} {trie trie' : Trie}
    (h : (Trie.check path).run trie = .ok () trie') : trie' = trie := by
  obtain ⟨t, t', hget, h⟩ := run_bind_eq_ok.1 h
  cases hget
  split at h
  · cases h
    rfl
  · cases h

/-- A path that is merged was admitted: the trie is grafted, and the path claims its slots. -/
theorem insert_eq_ok {path : Path} {index : Nat} {trie trie' : Trie}
    {slots : List (List Char × Nat)} (h : (Trie.insert path index).run trie = .ok slots trie') :
    trie.root.admits path.keys = true ∧
      trie' = ⟨((trie.root.graft index path.keys).claimSlots path.steps trie.slots).1,
        ((trie.root.graft index path.keys).claimSlots path.steps trie.slots).2⟩ ∧
      slots = trie'.root.bindings path.steps := by
  obtain ⟨t, t', hget, h⟩ := run_bind_eq_ok.1 h
  cases hget
  obtain ⟨_, t'', hset, h⟩ := run_bind_eq_ok.1 h
  cases hset
  by_cases hadmits : trie.admits path = true
  · rw [if_pos hadmits] at h
    cases h
    simp only [hadmits, if_true, and_self, and_true]
    exact hadmits
  · rw [if_neg hadmits] at h
    cases h

/-- What merging a path does to a trie: a route is added where none ends yet, all slots are kept,
and every name of the path gets the slot of the node it leads to. -/
structure Merges (trie : Trie) (path : Path) (index : Nat) (names : List (List Char × Nat))
    (trie' : Trie) : Prop where
  proper : trie.root.children.Proper → trie'.root.children.Proper
  free : trie.root.routeAt path.keys = none
  routes : ∀ ks, trie'.root.routeAt ks = if ks = path.keys then some index else trie.root.routeAt ks
  kept : ∀ ks s, trie.root.slotAt ks = some s → trie'.root.slotAt ks = some s
  slots_below : trie.root.SlotsBelow trie.slots → trie'.root.SlotsBelow trie'.slots
  names : names = Node.namesWith trie'.root.slotAt path.steps
  slotted : Node.Slotted trie'.root.slotAt path.steps

theorem merges_of_insert {path : Path} {index : Nat} {trie trie' : Trie}
    {names : List (List Char × Nat)} (h : (Trie.insert path index).run trie = .ok names trie') :
    Merges trie path index names trie' := by
  obtain ⟨hadmits, rfl, hnames⟩ := insert_eq_ok h
  have hold : (trie.root.graft index path.keys).slotAt = trie.root.slotAt :=
    funext fun ks => Node.slotAt_graft index trie.root path.keys ks
  have hgains :=
    Node.gains_claimSlots (trie.root.graft index path.keys) path.steps trie.slots
  constructor
  case proper =>
    intro hproper
    exact (Node.proper_claimSlots (Node.live_graft index hproper path.keys).2 _ _).1
  case free => exact Node.routeAt_of_admits hadmits
  case routes =>
    intro ks
    rw [hgains.routes, Node.routeAt_graft]
  case kept =>
    intro ks s hs
    exact hgains.kept ks s (hold ▸ hs)
  case slots_below =>
    intro hbelow
    refine hgains.slotsBelow ?_
    constructor <;> rw [hold]
    · exact hbelow.lt
    · exact hbelow.apart
  case names => exact hnames.trans (Node.bindings_eq_namesWith _ _)
  case slotted =>
    exact Node.slotted_claimSlots (Node.isSome_follow_graft index trie.root path.keys) _

/-- A path that is refused was not admitted, and still claims slots. -/
theorem insert_eq_error {path : Path} {index : Nat} {trie trie' : Trie} {e : TrieError}
    (h : (Trie.insert path index).run trie = .error e trie') :
    trie.admits path = false ∧ trie' = ⟨(trie.root.claimSlots path.steps trie.slots).1,
      (trie.root.claimSlots path.steps trie.slots).2⟩ := by
  by_cases hadmits : trie.admits path = true
  · simp only [insert, EStateM.run_bind, EStateM.run_get, EStateM.run_set, hadmits, if_true] at h
    cases h
  · rw [Bool.not_eq_true] at hadmits
    simp only [insert, EStateM.run_bind, EStateM.run_get, EStateM.run_set, hadmits,
      Bool.false_eq_true, if_false] at h
    cases h
    exact ⟨hadmits, rfl⟩

theorem exists_insert_eq_error_iff {path : Path} (index : Nat) {trie : Trie} :
    (∃ e trie', (Trie.insert path index).run trie = .error e trie') ↔
      trie.admits path = false := by
  constructor
  · rintro ⟨e, trie', h⟩
    exact (insert_eq_error h).1
  · intro hadmits
    cases h : (Trie.insert path index).run trie with
    | error e trie' => exact ⟨e, trie', rfl⟩
    | ok names trie' => exact absurd (insert_eq_ok h).1 (Bool.not_eq_true _ ▸ hadmits)

theorem check_eq_error {path : Path} {trie trie' : Trie} {e : TrieError}
    (h : (Trie.check path).run trie = .error e trie') :
    trie.admits path = false ∧ trie' = trie := by
  by_cases hadmits : trie.admits path = true
  · simp only [check, EStateM.run_bind, EStateM.run_get, hadmits, if_true] at h
    cases h
  · rw [Bool.not_eq_true] at hadmits
    simp only [check, EStateM.run_bind, EStateM.run_get, hadmits, Bool.false_eq_true,
      if_false] at h
    cases h
    exact ⟨hadmits, rfl⟩

theorem exists_check_eq_error_iff {path : Path} {trie : Trie} :
    (∃ e trie', (Trie.check path).run trie = .error e trie') ↔ trie.admits path = false := by
  constructor
  · rintro ⟨e, trie', h⟩
    exact (check_eq_error h).1
  · intro hadmits
    refine ⟨.conflict, trie, ?_⟩
    simp only [check, EStateM.run_bind, EStateM.run_get, hadmits, Bool.false_eq_true, if_false]
    rfl

/-- The trie comes from the empty one by checking and merging paths, with success or not; the list
has the paths that were merged. -/
inductive Grown : List Path → Trie → Prop
  | empty : Grown [] {}
  | checked {merged : List Path} {trie trie' : Trie} {path : Path} (h : Grown merged trie)
      (hcheck : (Trie.check path).run trie = .ok () trie' ∨
        ∃ e, (Trie.check path).run trie = .error e trie') : Grown merged trie'
  | merged {merged : List Path} {trie trie' : Trie} {path : Path} {index : Nat}
      {names : List (List Char × Nat)} (h : Grown merged trie)
      (hinsert : (Trie.insert path index).run trie = .ok names trie') :
      Grown (merged ++ [path]) trie'
  | refused {merged : List Path} {trie trie' : Trie} {path : Path} {index : Nat} {e : TrieError}
      (h : Grown merged trie) (hinsert : (Trie.insert path index).run trie = .error e trie') :
      Grown merged trie'

namespace Grown

variable {merged : List Path} {trie : Trie}

theorem orderly (h : Grown merged trie) : trie.root.Orderly ∧
    ∀ ks, (trie.root.routeAt ks).isSome ↔ ∃ earlier ∈ merged, earlier.keys = ks := by
  induction h with
  | empty =>
      refine ⟨Node.orderly_empty, fun ks => ?_⟩
      simp [Node.routeAt_empty]
  | checked _ hcheck ih =>
      rcases hcheck with hok | ⟨e, herror⟩
      · rwa [check_eq_ok hok]
      · rwa [(check_eq_error herror).2]
  | @merged merged trie _ path index _ _ hinsert ih =>
      obtain ⟨hadmits, rfl, -⟩ := insert_eq_ok hinsert
      refine ⟨(ih.1.graft path.wildcardLast_keys hadmits index).claimSlots _ _, fun ks => ?_⟩
      rw [(Node.gains_claimSlots _ _ _).routes, Node.routeAt_graft]
      by_cases hks : ks = path.keys
      · simp [hks]
      · simp [hks, Ne.symm hks, ih.2]
  | refused _ hinsert ih =>
      obtain ⟨-, rfl⟩ := insert_eq_error hinsert
      refine ⟨ih.1.claimSlots _ _, fun ks => ?_⟩
      rw [(Node.gains_claimSlots _ _ _).routes]
      exact ih.2 ks

/-- A path is admitted just if it conflicts with none of the merged ones. -/
theorem admits_eq_false_iff (h : Grown merged trie) (path : Path) :
    trie.admits path = false ↔ ∃ earlier ∈ merged, path.Conflicts earlier := by
  have hadmits := Node.admits_iff h.orderly.1 path.wildcardLast_keys
  rw [← Bool.not_eq_true, admits, hadmits]
  simp only [h.orderly.2]
  constructor
  · intro hnot
    by_contra hfree
    apply hnot
    rintro ks ⟨earlier, hmem, rfl⟩ hconflict
    exact hfree ⟨earlier, hmem, hconflict⟩
  · rintro ⟨earlier, hmem, hconflict⟩ hfree
    exact hfree earlier.keys ⟨earlier, hmem, rfl⟩ hconflict

end Grown

end Trie

end PathRouter
