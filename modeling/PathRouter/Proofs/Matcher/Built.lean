import PathRouter.Proofs.Matcher.Compose
import PathRouter.Proofs.Trie.Found

/-!
A matcher that was built, and the walks through its trie. The ordinals of the composite pattern lead
from a match back to the merged entry whose route ends the walk, and the groups of its parameters
hold what the walk reads at the nodes that carry its names. So a lookup of a path that is not static
answers with the first walk of the path.
-/

namespace PathRouter

namespace Pending

theorem route_eq_ok {composite : Composite} {p : Pending} {route : Route}
    (h : p.route composite = .ok route) (captures : Captures) :
    route.chain = p.chain ∧ Matcher.paramsIn captures route = p.slots.filterMap fun pair =>
      (captures.text? (composite.ordinal (.slot pair.2))).map fun piece => (pair.1, piece) := by
  obtain ⟨params, hparams, h⟩ := bind_eq_ok.1 h
  cases h
  refine ⟨rfl, ?_⟩
  have hall := forall₂_of_mapM_eq_ok hparams
  clear h hparams
  simp only [Matcher.paramsIn]
  generalize p.slots = slots at hall
  induction hall with
  | nil => rfl
  | @cons pair param _ _ hpair _ ih =>
      obtain ⟨name, slot⟩ := pair
      have hparam : param = (name, composite.ordinal (.slot slot)) := by
        simp only [Composite.ordinalOf?] at hpair
        cases hidx : composite.groups.idxOf? (.slot slot) with
        | none => simp [hidx] at hpair
        | some k =>
            simp only [hidx, Option.map_some, Except.ok.injEq] at hpair
            rw [← hpair, Composite.ordinal, List.idxOf_eq_getD_idxOf?, hidx]
            rfl
      rw [hparam, List.filterMap_cons, List.filterMap_cons, ih]

end Pending

namespace Matcher

/-- A matcher that was built, the assembly behind it, and the routes of its merged entries. -/
structure Built (entries : List Entry) (matcher : Matcher) (a : Assembly) (merged : List Route) :
    Prop where
  holds : a.Holds (shortestFirst entries)
  routed : List.Forall₂ (fun (p : Pending) route => p.route a.trie.composite = .ok route) a.pending
    merged
  pattern : matcher.pattern = a.trie.composite.pattern
  routes : matcher.routes = a.trie.composite.routeOf.map fun index => index.bind (merged[·]?)
  statics : matcher.statics = a.statics

theorem exists_built [SizeRule] {config : Config} {entries : List Entry} {matcher : Matcher}
    (h : build config entries = .ok matcher) : ∃ a merged, Built entries matcher a merged := by
  rw [build_eq_compose] at h
  obtain ⟨a, ha, h⟩ := bind_eq_ok.1 h
  obtain ⟨merged, hmerged, h⟩ := bind_eq_ok.1 h
  refine ⟨a, merged, ?_⟩
  cases hpattern : a.trie.composite.pattern with
  | none =>
      simp only [hpattern] at h
      cases h
      exact ⟨Assembly.holds_of_foldlM ha, forall₂_of_mapM_eq_ok hmerged, hpattern.symm, rfl, rfl⟩
  | some pattern =>
      simp only [hpattern] at h
      split at h
      · next hchecked =>
          cases h
          rw [Pattern.eq_of_checked hchecked]
          exact ⟨Assembly.holds_of_foldlM ha, forall₂_of_mapM_eq_ok hmerged, hpattern.symm,
            rfl, rfl⟩
      · cases h

namespace Built

variable {entries : List Entry} {matcher : Matcher} {a : Assembly} {merged : List Route}

theorem nodup_groups (h : Built entries matcher a merged) : a.trie.composite.groups.Nodup :=
  h.holds.nodup_groups

/-- A route's ordinal is that of its group, and the route that of its entry. -/
theorem getElem?_routes (h : Built entries matcher a merged) {n : Nat} {route : Route} :
    matcher.routes[n]? = some (some route) ↔
      ∃ k index, n = k + 1 ∧ a.trie.composite.groups[k]? = some (.route index) ∧
        merged[index]? = some route := by
  rw [h.routes, List.getElem?_map, Option.map_eq_some_iff]
  constructor
  · rintro ⟨index, hindex, hroute⟩
    cases index with
    | none => cases hroute
    | some index =>
        obtain ⟨k, hk, hg⟩ := Composite.getElem?_routeOf.1 hindex
        exact ⟨k, index, hk, hg, hroute⟩
  · rintro ⟨k, index, hk, hg, hroute⟩
    exact ⟨some index, Composite.getElem?_routeOf.2 ⟨k, hk, hg⟩, hroute⟩

theorem getElem?_ordinal {w : Walk} {text : List Char}
    (hw : w ∈ a.trie.root.walks text 0) {g : Group} (hg : g ∈ w.groups) :
    ∃ k, a.trie.composite.ordinal g = k + 1 ∧ a.trie.composite.groups[k]? = some g :=
  ⟨_, rfl, List.getElem?_idxOf ((Trie.groups_sublist_composite hw).subset hg)⟩

/-- Of the groups of routes, a match by a walk has that of its own route only. -/
theorem participates_iff (h : Built entries matcher a merged) {w : Walk} {text : List Char}
    (hw : w ∈ a.trie.root.walks text 0) {route : Route} (hroute : merged[w.route]? = some route)
    {n : Nat} :
    (⟨text, w.marks a.trie.composite.ordinal text.length⟩ : Captures).participates n = true ∧
      (∃ r, matcher.routes[n]? = some (some r)) ↔
        n = a.trie.composite.ordinal (.route w.route) := by
  have hend : Group.route w.route ∈ w.groups := by simp [Walk.groups]
  rw [Trie.participates_iff]
  constructor
  · rintro ⟨⟨g, hg, rfl⟩, r, hr⟩
    obtain ⟨k, index, hk, hindex, -⟩ := h.getElem?_routes.1 hr
    obtain ⟨k', hk', hplace⟩ := getElem?_ordinal hw hg
    obtain rfl : k = k' := by omega
    obtain rfl : g = .route index := Option.some.inj (hplace.symm.trans hindex)
    rcases List.mem_append.1 hg with hslot | hlast
    · -- groups of slots have no routes
      obtain ⟨v, -, hv⟩ := List.mem_filterMap.1 hslot
      obtain ⟨s, -, hs⟩ := Option.map_eq_some_iff.1 hv
      cases hs
    · rw [List.mem_singleton.1 hlast]
  · rintro rfl
    obtain ⟨k, hk, hplace⟩ := getElem?_ordinal hw hend
    exact ⟨⟨_, hend, rfl⟩, route, h.getElem?_routes.2 ⟨k, w.route, hk, hplace, hroute⟩⟩

/-- The route that a match leads to, if only one of the groups that take part has one. -/
theorem routeIn?_eq_some {captures : Captures} {n : Nat} {route : Route}
    (hroute : matcher.routes[n]? = some (some route)) (hn : captures.participates n = true)
    (honly : ∀ m r, captures.participates m = true → matcher.routes[m]? = some (some r) → m = n) :
    matcher.routeIn? captures = some route :=
  Captures.findSome?_zipIdx_eq_some hroute hn honly

theorem lookup_static (h : Built entries matcher a merged) {path : Path} {chain : Chain}
    (hstatic : a.statics.get? path = some chain) : matcher.lookup path = some (chain, []) := by
  rw [lookup, h.statics, hstatic]

theorem lookup_none (h : Built entries matcher a merged) {path : Path}
    (hstatic : a.statics.get? path = none) (hwalks : a.trie.root.walks path 0 = []) :
    matcher.lookup path = none := by
  have hsearch := Trie.search_composite h.holds.proper h.nodup_groups path
  rw [hwalks, List.head?_nil, Option.map_none, ← h.pattern] at hsearch
  rw [lookup, h.statics, hstatic]
  cases hpattern : matcher.pattern with
  | none => rfl
  | some pattern =>
      rw [hpattern, Option.bind_some] at hsearch
      simp [hsearch]

/-- A path that is not static is found by its first walk, and that walk alone decides: the chain is
that of the merged entry whose keys it goes along, and the parameters are what it reads. -/
theorem lookup_walk (h : Built entries matcher a merged) {path : Path}
    (hstatic : a.statics.get? path = none) {w : Walk}
    (hw : (a.trie.root.walks path 0).head? = some w) :
    ∃ p ∈ a.pending, p.path.keys = w.visits.map Visit.key ∧
      matcher.lookup path = some (p.chain, boundBy p.path.tokenize (piecesOf path w.visits)) ∧
      ∃ captures, (matcher.pattern.bind (·.search path)) = some captures ∧
        ∃! n, captures.participates n = true ∧ ∃ r, matcher.routes[n]? = some (some r) := by
  have hmem : w ∈ a.trie.root.walks path 0 := List.mem_of_head? hw
  have hfits := (Node.mem_walks h.holds.proper).1 hmem
  obtain ⟨p, hp, hkeys⟩ := (h.holds.routes _ _).1 hfits.routeAt
  obtain ⟨route, hmerged, hroute⟩ := exists_getElem?_of_forall₂ h.routed hp
  have hsearch := Trie.search_composite h.holds.proper h.nodup_groups path
  rw [hw, Option.map_some, ← h.pattern] at hsearch
  have hpart (n : Nat) := h.participates_iff hmem hmerged (n := n)
  obtain ⟨hn, r, hr⟩ := (hpart _).2 rfl
  obtain ⟨hnames, hslotted⟩ := h.holds.slots p (List.mem_of_getElem? hp)
  obtain ⟨hchain, hparams⟩ := Pending.route_eq_ok hroute
    ⟨path, w.marks a.trie.composite.ordinal path.length⟩
  have hbound := hfits.boundBy_eq hkeys.symm hslotted fun v hv s hs =>
    Trie.text?_visit h.nodup_groups hmem hv hs
  -- the route of the walk stands under its ordinal, and no other group that takes part has one
  have hfound : matcher.routes[a.trie.composite.ordinal (.route w.route)]? = some (some route) := by
    obtain ⟨k, hk, hplace⟩ := getElem?_ordinal hmem (g := .route w.route) (by simp [Walk.groups])
    exact h.getElem?_routes.2 ⟨k, w.route, hk, hplace, hmerged⟩
  have hrouteIn := routeIn?_eq_some hfound hn fun m r hm hr => (hpart m).1 ⟨hm, r, hr⟩
  refine ⟨p, List.mem_of_getElem? hp, hkeys, ?_, _, hsearch, _, ⟨hn, r, hr⟩,
    fun m hm => (hpart m).1 hm⟩
  cases hpattern : matcher.pattern with
  | none => simp [hpattern] at hsearch
  | some pattern =>
      rw [hpattern, Option.bind_some] at hsearch
      rw [lookup, h.statics, hstatic]
      simp only [hpattern, hsearch, hrouteIn, Option.bind_eq_bind, Option.bind_some,
        Option.pure_def]
      rw [hchain, hparams, hnames, Path.steps, hbound]

end Built

end Matcher

end PathRouter
