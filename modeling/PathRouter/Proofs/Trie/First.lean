import PathRouter.Proofs.Trie.Fits

/-!
The first walk of a text, which is the one that a search finds. It takes the first edge that leads
to a walk at all, and goes on with the first walk from there. In particular it follows the literals
that any other walk starts with, as siblings that are literals read different characters.
-/

namespace PathRouter

/-- The first walk through a forest takes an edge of the least rank, and is the first one from the
node behind it. -/
theorem Forest.head?_walks {edges : Forest} (h : edges.Proper) {text : List Char} {i : Nat}
    {first : Walk} (hfirst : (edges.walks text i).head? = some first) :
    ∃ v w child, first = Walk.along v w ∧ edges.get? v.key = some child ∧
      v.key.pattern.Spans text i v.stop ∧ (child.walks text v.stop).head? = some w ∧
      ∀ other ∈ edges.walks text i,
        ∃ v' vs, other.visits = v' :: vs ∧ v.key.rank ≤ v'.key.rank := by
  induction edges with
  | nil => cases hfirst
  | node key slot route children siblings _ ihs =>
      rw [walks, List.head?_append] at hfirst
      cases hblock : ((key.pattern.outcomes text i).flatMap fun o =>
          (Walk.ending text route o.1 ++ children.walks text o.1).map
            (Walk.along ⟨key, slot, i, o.1⟩)).head? with
      | some found =>
          -- the first walk takes the first edge, whose rank is the least of all
          rw [hblock, Option.some_or, Option.some.injEq] at hfirst
          subst hfirst
          rw [List.head?_flatMap] at hblock
          obtain ⟨o, ho, hhead⟩ := List.exists_of_findSome?_eq_some hblock
          rw [List.head?_map, Option.map_eq_some_iff] at hhead
          obtain ⟨w, hw, rfl⟩ := hhead
          refine ⟨_, w, ⟨slot, route, children⟩, rfl, by rw [get?, if_pos rfl], ⟨o.2, ho⟩, hw, ?_⟩
          intro other hother
          rw [walks, List.mem_append] at hother
          rcases hother with hother | hother
          · obtain ⟨o', -, hmem⟩ := List.mem_flatMap.1 hother
            obtain ⟨w', -, rfl⟩ := List.mem_map.1 hmem
            exact ⟨_, _, rfl, Nat.le_refl _⟩
          · obtain ⟨v', w', child, rfl, hget, -⟩ := (mem_walks h.2.2.2).1 hother
            exact ⟨v', w'.visits, rfl, Nat.le_of_lt (h.1 _ (mem_keys_of_get? hget))⟩
      | none =>
          -- no walk takes the first edge, so all of them go through the siblings
          rw [hblock, Option.none_or] at hfirst
          obtain ⟨v, w, child, rfl, hget, hspans, hw, hleast⟩ := ihs h.2.2.2 hfirst
          refine ⟨v, w, child, rfl, (get?_siblings h hget).2, hspans, hw, ?_⟩
          intro other hother
          rw [walks, List.head?_eq_none_iff.1 hblock, List.nil_append] at hother
          exact hleast other hother

namespace Node

variable {node : Node} {text : List Char} {i : Nat} {first : Walk}

/-- The first walk from a node ends there, or is the first one through the edges below. -/
theorem head?_walks (hfirst : (node.walks text i).head? = some first) :
    (first.visits = [] ∧ i = text.length) ∨
      ((node.children.walks text i).head? = some first ∧
        ∀ other ∈ node.walks text i, other ∈ node.children.walks text i) := by
  rw [walks] at hfirst
  cases hending : Walk.ending text node.route i with
  | cons w ws =>
      rw [hending, List.cons_append, List.head?_cons, Option.some.injEq] at hfirst
      have hmem : w ∈ Walk.ending text node.route i := hending ▸ List.mem_cons_self
      obtain ⟨hi, -, hvisits⟩ := Walk.mem_ending.1 hmem
      exact Or.inl ⟨hfirst ▸ hvisits, hi⟩
  | nil =>
      rw [hending, List.nil_append] at hfirst
      refine Or.inr ⟨hfirst, fun other hother => ?_⟩
      rwa [walks, hending, List.nil_append] at hother

theorem first_edge (h : node.children.Proper) (hfirst : (node.walks text i).head? = some first) :
    (first.visits = [] ∧ i = text.length) ∨
      ∃ v w child, first = Walk.along v w ∧ node.children.get? v.key = some child ∧
        v.key.pattern.Spans text i v.stop ∧ (child.walks text v.stop).head? = some w ∧
        ∀ other ∈ node.walks text i,
          ∃ v' vs, other.visits = v' :: vs ∧ v.key.rank ≤ v'.key.rank := by
  rcases head?_walks hfirst with hend | ⟨hhead, hall⟩
  · exact Or.inl hend
  · obtain ⟨v, w, child, hfirst, hget, hspans, hw, hleast⟩ := Forest.head?_walks h hhead
    exact Or.inr ⟨v, w, child, hfirst, hget, hspans, hw, fun other hother =>
      hleast other (hall other hother)⟩

/-- Beside a walk that starts with a literal, the first walk starts with the same literal. -/
theorem first_edge_literal (h : node.children.Proper)
    (hfirst : (node.walks text i).head? = some first) {u : Visit} {us : List Visit} {route : Nat}
    (hother : ⟨u :: us, route⟩ ∈ node.walks text i) {c : Char} (hu : u.key = .literal c) :
    ∃ (v : Visit) (w : Walk) (child : Node), first = Walk.along v w ∧ v.key = .literal c ∧
      child.children.Proper ∧ (child.walks text (i + 1)).head? = some w ∧
      ⟨us, route⟩ ∈ child.walks text (i + 1) := by
  obtain ⟨child, hget, -, -, hspans, hfits⟩ := (mem_walks h).1 hother
  rw [hu, Key.pattern, Pattern.spans_char] at hspans
  obtain ⟨hc, hstop⟩ := hspans
  rcases first_edge h hfirst with ⟨-, hend⟩ | ⟨v, w, child', rfl, hget', hspans', hw, hleast⟩
  · rw [hend, List.getElem?_length] at hc
    cases hc
  -- only a literal has no higher rank than a literal, and both read the same character
  have hv : v.key = .literal c ∧ v.stop = i + 1 := by
    obtain ⟨v', vs, hvisits, hle⟩ := hleast _ hother
    obtain ⟨rfl, -⟩ := List.cons.inj hvisits
    rw [hu] at hle
    have hlt := Nat.lt_of_le_of_lt hle (Key.rank_literal_lt c)
    cases hk : v.key with
    | literal d =>
        rw [hk, Key.pattern, Pattern.spans_char, hc] at hspans'
        rw [Option.some.inj hspans'.1]
        exact ⟨rfl, hspans'.2⟩
    | label | tailWildcard | onlyWildcard =>
        rw [hk, Key.rank] at hlt
        omega
  rw [hv.1, ← hu, hget, Option.some.injEq] at hget'
  subst hget'
  rw [hv.2] at hw
  rw [hstop] at hfits
  have hproper := (h.live_of_get? hget).2
  exact ⟨v, w, child, rfl, hv.1, hproper, hw, (mem_walks hproper).2 hfits⟩

/-- The first walk follows the literals that another walk starts with; both go on from one node. -/
theorem first_follows_literals (h : node.children.Proper)
    (hfirst : (node.walks text i).head? = some first) {other : Walk}
    (hother : other ∈ node.walks text i) {p : Path} {keys : List Key}
    (hkeys : other.visits.map Visit.key = p.map .literal ++ keys) :
    ∃ (target : Node) (j : Nat) (first' other' : Walk), target.children.Proper ∧
      first.visits.map Visit.key = p.map .literal ++ first'.visits.map Visit.key ∧
      (target.walks text j).head? = some first' ∧ other' ∈ target.walks text j ∧
      other'.visits.map Visit.key = keys := by
  induction p generalizing node i first other with
  | nil => exact ⟨node, i, first, other, h, rfl, hfirst, hother, hkeys⟩
  | cons c p ih =>
      obtain ⟨visits, route⟩ := other
      cases visits with
      | nil => cases hkeys
      | cons u us =>
          rw [List.map_cons, List.map_cons, List.cons_append, List.cons.injEq] at hkeys
          obtain ⟨hu, hkeys⟩ := hkeys
          obtain ⟨v, w, child, rfl, hv, hproper, hw, hmem⟩ := first_edge_literal h hfirst hother hu
          obtain ⟨target, j, first', other', htarget, hkeys', hfirst', hother', hrest⟩ :=
            ih hproper hw hmem hkeys
          refine ⟨target, j, first', other', htarget, ?_, hfirst', hother', hrest⟩
          rw [Walk.along, List.map_cons, hv, hkeys', List.map_cons, List.cons_append]

end Node

end PathRouter
