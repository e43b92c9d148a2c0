import PathRouter.Proofs.Path.Keys
import PathRouter.Proofs.Trie.Tree

/-!
Conflicts as a relation between two paths. Whether the tree admits a path is decided at one place,
where the path leaves the tree, and by the edges there alone. Still it comes to the same as holding
the path against every route of the tree on its own: labels and literals never stand side by side,
and nothing goes on behind a wildcard, so an edge that is already there can be taken without asking.
-/

namespace PathRouter

namespace Key

/-- A key may not come to stand beside one that is there before it: a label or a wildcard beside no
literal and no label, a literal beside no label. -/
def Clashes (key present : Key) : Prop :=
  (key.isLiteral = false ∧ (present.isLiteral = true ∨ present = .label)) ∨
    (key.isLiteral = true ∧ present = .label)

instance (key present : Key) : Decidable (key.Clashes present) :=
  inferInstanceAs (Decidable (_ ∨ _))

/-- The keys are the same, or clash at the first place where they differ. -/
def Conflicts (keys earlier : List Key) : Prop :=
  keys = earlier ∨ ∃ common key present rest rest', keys = common ++ key :: rest ∧
    earlier = common ++ present :: rest' ∧ key ≠ present ∧ key.Clashes present

theorem conflicts_nil_left {earlier : List Key} : Conflicts [] earlier ↔ earlier = [] := by
  constructor
  · rintro (h | ⟨common, key, present, rest, rest', h, -⟩)
    · exact h.symm
    · cases common <;> cases h
  · rintro rfl
    exact Or.inl rfl

theorem not_conflicts_nil_right (key : Key) (keys : List Key) : ¬Conflicts (key :: keys) [] := by
  rintro (h | ⟨common, other, present, rest, rest', -, h, -⟩)
  · cases h
  · cases common <;> cases h

theorem conflicts_cons_self {key : Key} {keys earlier : List Key} :
    Conflicts (key :: keys) (key :: earlier) ↔ Conflicts keys earlier := by
  constructor
  · rintro (h | ⟨common, other, present, rest, rest', hkeys, hearlier, hne, hclash⟩)
    · exact Or.inl (List.cons.inj h).2
    · cases common with
      | nil => exact absurd ((List.cons.inj hkeys).1.symm.trans (List.cons.inj hearlier).1) hne
      | cons k common =>
          exact Or.inr ⟨common, other, present, rest, rest', (List.cons.inj hkeys).2,
            (List.cons.inj hearlier).2, hne, hclash⟩
  · rintro (rfl | ⟨common, other, present, rest, rest', rfl, rfl, hne, hclash⟩)
    · exact Or.inl rfl
    · exact Or.inr ⟨key :: common, other, present, rest, rest', rfl, rfl, hne, hclash⟩

theorem conflicts_cons_of_ne {key present : Key} (hne : key ≠ present) {keys earlier : List Key} :
    Conflicts (key :: keys) (present :: earlier) ↔ key.Clashes present := by
  constructor
  · rintro (h | ⟨common, other, other', rest, rest', hkeys, hearlier, -, hclash⟩)
    · exact absurd (List.cons.inj h).1 hne
    · cases common with
      | nil =>
          rw [(List.cons.inj hkeys).1, (List.cons.inj hearlier).1]
          exact hclash
      | cons k common =>
          exact absurd ((List.cons.inj hkeys).1.trans (List.cons.inj hearlier).1.symm) hne
  · intro hclash
    exact Or.inr ⟨[], key, present, keys, earlier, rfl, rfl, hne, hclash⟩

instance decidableConflicts : ∀ keys earlier : List Key, Decidable (Conflicts keys earlier)
  | [], _ => decidable_of_iff _ conflicts_nil_left.symm
  | key :: keys, [] => isFalse (not_conflicts_nil_right key keys)
  | key :: keys, present :: earlier =>
    if h : key = present then
      have := decidableConflicts keys earlier
      decidable_of_iff (Conflicts keys earlier) (h ▸ conflicts_cons_self.symm)
    else decidable_of_iff _ (conflicts_cons_of_ne h).symm

end Key

/-! ### Routes below a node -/

/-- Behind some edge of a proper forest there is a route. -/
theorem Forest.Proper.exists_route {edges : Forest} (h : edges.Proper) (hne : edges ≠ .nil) :
    ∃ key child keys, edges.get? key = some child ∧ (child.routeAt keys).isSome := by
  induction edges with
  | nil => exact absurd rfl hne
  | node key slot route children siblings ihc _ =>
      refine ⟨key, ⟨slot, route, children⟩, ?_⟩
      rcases h.2.1 with hroute | hchildren
      · exact ⟨[], by rw [get?, if_pos rfl], hroute⟩
      · obtain ⟨k, child, keys, hget, hsome⟩ := ihc h.2.2.1 hchildren
        refine ⟨k :: keys, by rw [get?, if_pos rfl], ?_⟩
        rw [Node.routeAt_cons, hget]
        exact hsome

theorem Node.Live.exists_route {node : Node} (h : node.Live) :
    ∃ keys, (node.routeAt keys).isSome := by
  rcases h.1 with hroute | hchildren
  · exact ⟨[], hroute⟩
  · obtain ⟨key, child, keys, hget, hsome⟩ := h.2.exists_route hchildren
    refine ⟨key :: keys, ?_⟩
    rw [routeAt_cons, hget]
    exact hsome

namespace Node

theorem mem_keys_iff {node : Node} (h : node.children.Proper) {key : Key} :
    key ∈ node.children.keys ↔ ∃ rest, (node.routeAt (key :: rest)).isSome := by
  cases hget : node.children.get? key with
  | none =>
      have hmem := (Forest.get?_eq_none_iff _ _).1 hget
      simp [hmem, routeAt_cons, hget]
  | some child =>
      obtain ⟨rest, hsome⟩ := (h.live_of_get? hget).exists_route
      refine iff_of_true (Forest.mem_keys_of_get? hget) ⟨rest, ?_⟩
      rw [routeAt_cons, hget]
      exact hsome

/-- What the routes below a node are like: no literal stands beside a label, and nothing comes
behind a wildcard. -/
structure Orderly (node : Node) : Prop where
  proper : node.children.Proper
  last : ∀ keys, (node.routeAt keys).isSome → Key.WildcardLast keys
  apart : ∀ common c rest rest', (node.routeAt (common ++ .literal c :: rest)).isSome →
    ¬(node.routeAt (common ++ .label :: rest')).isSome

variable {node child : Node} {key : Key}

theorem Orderly.below (h : node.Orderly) (hget : node.children.get? key = some child) :
    child.Orderly := by
  have hroute (keys : List Key) : child.routeAt keys = node.routeAt (key :: keys) := by
    rw [routeAt_cons, hget, Option.bind_some]
  constructor
  case proper => exact (h.proper.live_of_get? hget).2
  case last =>
    intro keys hsome
    rw [hroute] at hsome
    exact (h.last _ hsome).tail
  case apart =>
    intro common c rest rest' hsome
    rw [hroute] at hsome ⊢
    exact h.apart (key :: common) c rest rest' hsome

/-- A new edge is refused just if it clashes with one that is there. -/
theorem refuses_iff (h : node.Orderly) : node.children.refuses key = true ↔
    ∃ present rest, (node.routeAt (present :: rest)).isSome ∧ key.Clashes present := by
  have hmem (present : Key) :
      (∃ rest, (node.routeAt (present :: rest)).isSome ∧ key.Clashes present) ↔
        present ∈ node.children.keys ∧ key.Clashes present := by
    rw [mem_keys_iff h.proper, exists_and_right]
  simp only [hmem]
  unfold Forest.refuses Key.Clashes
  cases hliteral : key.isLiteral with
  | true => simp
  | false =>
      have hwild (present : Key) : (!present.isWildcard) = true ↔
          present.isLiteral = true ∨ present = .label := by
        cases present <;> simp [Key.isWildcard, Key.isLiteral]
      simp [hwild]

/-- An edge that is there clashes with no other one, or is a wildcard, behind which a route ends. -/
theorem Orderly.clashes (h : node.Orderly) (hget : node.children.get? key = some child)
    {present : Key} {rest : List Key} (hpresent : (node.routeAt (present :: rest)).isSome)
    (hne : key ≠ present) (hclash : key.Clashes present) : key.isWildcard = true := by
  obtain ⟨below, hbelow⟩ := (mem_keys_iff h.proper).1 (Forest.mem_keys_of_get? hget)
  rcases hclash with ⟨hkey, hliteral | rfl⟩ | ⟨hliteral, rfl⟩
  · cases key with
    | literal c => cases hkey
    | label =>
        cases present with
        | literal c => exact absurd hbelow (h.apart [] c rest below hpresent)
        | label | tailWildcard | onlyWildcard => cases hliteral
    | tailWildcard | onlyWildcard => rfl
  · cases key with
    | literal c => cases hkey
    | label => exact absurd rfl hne
    | tailWildcard | onlyWildcard => rfl
  · cases key with
    | literal c => exact absurd hpresent (h.apart [] c below rest hbelow)
    | label | tailWildcard | onlyWildcard => cases hliteral

theorem Orderly.route_of_isWildcard (h : node.Orderly)
    (hget : node.children.get? key = some child) (hwild : key.isWildcard = true) :
    child.route.isSome := by
  obtain ⟨below, hbelow⟩ := (mem_keys_iff h.proper).1 (Forest.mem_keys_of_get? hget)
  rw [(h.last _ hbelow).eq_nil hwild, routeAt_cons, hget] at hbelow
  exact hbelow

/-- The tree admits keys just if they conflict with no route on its own. -/
theorem admits_iff (h : node.Orderly) {keys : List Key} (hlast : Key.WildcardLast keys) :
    node.admits keys = true ↔ ∀ ks, (node.routeAt ks).isSome → ¬Key.Conflicts keys ks := by
  induction keys generalizing node with
  | nil =>
      rw [admits, Option.isNone_iff_eq_none, ← routeAt_nil]
      constructor
      · intro hnone ks hsome hconflict
        rw [Key.conflicts_nil_left.1 hconflict, hnone] at hsome
        cases hsome
      · intro hall
        by_contra hsome
        exact hall [] (Option.isSome_iff_ne_none.2 hsome) (Or.inl rfl)
  | cons key rest ih =>
      rw [admits]
      cases hget : node.children.get? key with
      | none =>
          -- the path leaves the tree here, so no route has its first key
          have hroute (ks : List Key) : node.routeAt (key :: ks) = none := by
            rw [routeAt_cons, hget, Option.bind_none]
          show (!node.children.refuses key) = true ↔ _
          rw [Bool.not_eq_true', ← Bool.not_eq_true, refuses_iff h]
          constructor
          · intro hnone ks hsome hconflict
            cases ks with
            | nil => exact Key.not_conflicts_nil_right _ _ hconflict
            | cons present ks =>
                have hne : key ≠ present := by
                  rintro rfl
                  rw [hroute] at hsome
                  cases hsome
                exact hnone ⟨present, ks, hsome, (Key.conflicts_cons_of_ne hne).1 hconflict⟩
          · rintro hall ⟨present, ks, hsome, hclash⟩
            have hne : key ≠ present := by
              rintro rfl
              rw [hroute] at hsome
              cases hsome
            exact hall _ hsome ((Key.conflicts_cons_of_ne hne).2 hclash)
      | some child =>
          -- the path goes on in the child, where the routes that start with its first key are
          have hroute (ks : List Key) : node.routeAt (key :: ks) = child.routeAt ks := by
            rw [routeAt_cons, hget, Option.bind_some]
          rw [ih (h.below hget) hlast.tail]
          constructor
          · intro hall ks hsome hconflict
            cases ks with
            | nil => exact Key.not_conflicts_nil_right _ _ hconflict
            | cons present ks =>
                by_cases hne : key = present
                · subst hne
                  rw [hroute] at hsome
                  exact hall ks hsome (Key.conflicts_cons_self.1 hconflict)
                · -- then the first key is a wildcard, and a route ends where the path does
                  have hclash := (Key.conflicts_cons_of_ne hne).1 hconflict
                  have hwild := h.clashes hget hsome hne hclash
                  exact hall [] (h.route_of_isWildcard hget hwild) (Or.inl (hlast.eq_nil hwild))
          · intro hall ks hsome hconflict
            rw [← hroute] at hsome
            exact hall _ hsome (Key.conflicts_cons_self.2 hconflict)

/-! ### Keeping the order -/

theorem Orderly.graft (h : node.Orderly) {keys : List Key} (hlast : Key.WildcardLast keys)
    (hadmits : node.admits keys = true) (index : Nat) : (node.graft index keys).Orderly := by
  have hroute (ks : List Key) : ((node.graft index keys).routeAt ks).isSome ↔
      ks = keys ∨ (node.routeAt ks).isSome := by
    rw [routeAt_graft]
    split <;> simp [*]
  have hfree := (admits_iff h hlast).1 hadmits
  constructor
  case proper => exact (live_graft index h.proper keys).2
  case last =>
    intro ks hsome
    rcases (hroute ks).1 hsome with rfl | hold
    · exact hlast
    · exact h.last ks hold
  case apart =>
    intro common c rest rest' hliteral hlabel
    rcases (hroute _).1 hliteral with hkeys | hliteral
    · rcases (hroute _).1 hlabel with hkeys' | hlabel
      · cases List.append_cancel_left (hkeys.trans hkeys'.symm)
      · exact hfree _ hlabel (Or.inr ⟨common, .literal c, .label, rest, rest', hkeys.symm, rfl,
          Key.noConfusion, Or.inr ⟨rfl, rfl⟩⟩)
    · rcases (hroute _).1 hlabel with hkeys | hlabel
      · exact hfree _ hliteral (Or.inr ⟨common, .label, .literal c, rest', rest, hkeys.symm, rfl,
          Key.noConfusion, Or.inl ⟨rfl, Or.inl rfl⟩⟩)
      · exact h.apart common c rest rest' hliteral hlabel

theorem Orderly.claimSlots (h : node.Orderly) (steps : List Step) (next : Nat) :
    (node.claimSlots steps next).1.Orderly := by
  have hroute := (gains_claimSlots node steps next).routes
  constructor
  case proper => exact (proper_claimSlots h.proper steps next).1
  case last =>
    intro ks hsome
    rw [hroute] at hsome
    exact h.last ks hsome
  case apart =>
    intro common c rest rest' hsome
    rw [hroute] at hsome ⊢
    exact h.apart common c rest rest' hsome

theorem orderly_empty : ({} : Node).Orderly where
  proper := trivial
  last ks hsome := by simp [routeAt_empty] at hsome
  apart common c rest rest' hsome := by simp [routeAt_empty] at hsome

end Node

def Path.Conflicts (path earlier : Path) : Prop := Key.Conflicts path.keys earlier.keys

instance (path earlier : Path) : Decidable (path.Conflicts earlier) :=
  inferInstanceAs (Decidable (Key.Conflicts _ _))

end PathRouter
