import Mathlib
import PathRouter.Pattern.Size
import PathRouter.Proofs.Matcher.Built
import PathRouter.Proofs.OrderedMap

/-!
Lookups of a matcher, seen from its entries alone. A static path has its own entry; any other path
goes to a dynamic entry that matches it on its own, and is found as soon as there is one. The
parameters are those of the entry, and rebuild the path.
-/

namespace PathRouter

/-- The parameters are read off a reading of the whole text by the tokens of the path: every name in
its place, with a stretch of one segment. -/
structure Path.Binds (path : Path) (text : List Char) (params : Params) : Prop where
  names : params.map Prod.fst = paramNames path.tokenize
  values : ∀ pair ∈ params, pair.2 ≠ [] ∧ '/' ∉ pair.2
  rebuilds : ∃ pieces, Reading path.tokenize pieces ∧ pieces.flatten = text ∧
    params = boundBy path.tokenize pieces

namespace Matcher

theorem mem_shortestFirst {entries : List Entry} {e : Entry} :
    e ∈ shortestFirst entries ↔ e ∈ entries :=
  (List.mergeSort_perm ..).mem_iff

namespace Built

variable {entries : List Entry} {matcher : Matcher} {a : Assembly} {merged : List Route}

theorem get?_statics (h : Built entries matcher a merged) {path : Path} {chain : Chain}
    (hstatic : path.isStatic = true) (hmem : (path, chain) ∈ entries)
    (honly : ∀ e ∈ entries, e.1 = path → e.2 = chain) : a.statics.get? path = some chain := by
  rw [h.holds.statics]
  apply OrderedMap.get?_ofList
  · exact mem_staticEntries.2 ⟨mem_shortestFirst.2 hmem, hstatic⟩
  · intro e he
    exact honly e (mem_shortestFirst.1 (mem_staticEntries.1 he).1)

theorem get?_statics_eq_none (h : Built entries matcher a merged) {path : Path} :
    a.statics.get? path = none ↔ ∀ e ∈ entries, e.1.isStatic = true → e.1 ≠ path := by
  rw [h.holds.statics, OrderedMap.get?_eq_none_iff, OrderedMap.mem_keys_ofList]
  simp only [List.mem_map, mem_staticEntries, mem_shortestFirst, not_exists, not_and]
  exact ⟨fun h e he hs => h e ⟨he, hs⟩, fun h e he => h e he.1 he.2⟩

theorem mem_pending (h : Built entries matcher a merged) {e : Entry} :
    (∃ p ∈ a.pending, (p.path, p.chain) = e) ↔ e ∈ entries ∧ e.1.isStatic = false := by
  rw [← List.mem_map, h.holds.pending, mem_dynamicEntries, mem_shortestFirst]

theorem exists_walk (h : Built entries matcher a merged) {e : Entry} (he : e ∈ entries)
    (hdynamic : e.1.isStatic = false) {text : List Char} (hmatches : e.1.Matches text) :
    ∃ w ∈ a.trie.root.walks text 0, w.visits.map Visit.key = e.1.keys := by
  obtain ⟨p, hp, rfl⟩ := h.mem_pending.2 ⟨he, hdynamic⟩
  obtain ⟨i, hi⟩ := List.getElem?_of_mem hp
  have hroute : a.trie.root.routeAt p.path.keys = some i := (h.holds.routes _ _).2 ⟨p, hi, rfl⟩
  obtain ⟨pieces, hreading, hflat⟩ := hmatches
  obtain ⟨vs, hkeys, hfits⟩ := Node.exists_fits (Nat.zero_le _) hroute
    (reading_iff_forall₂.1 hreading) (hflat.symm ▸ rfl : text.drop 0 = pieces.flatten)
  exact ⟨⟨vs, i⟩, (Node.mem_walks h.holds.proper).2 hfits, hkeys⟩

/-- A walk along the keys of a path reads the text as the path does on its own. -/
theorem reading_of_walk (h : Built entries matcher a merged) {text : List Char} {w : Walk}
    (hw : w ∈ a.trie.root.walks text 0) {path : Path} (hkeys : path.keys = w.visits.map Visit.key) :
    Reading path.tokenize (piecesOf text w.visits) ∧ (piecesOf text w.visits).flatten = text := by
  obtain ⟨hall, hflat⟩ := ((Node.mem_walks h.holds.proper).1 hw).reads (Nat.zero_le _)
  refine ⟨?_, hflat⟩
  rw [reading_iff_forall₂]
  change List.Forall₂ Key.Reads path.keys _
  rw [hkeys]
  exact hall

/-- A path that is not static is answered by the entry of its first walk, and that walk reads the
path as the entry does on its own. -/
theorem lookup_eq_some (h : Built entries matcher a merged) {path : Path}
    (hstatic : a.statics.get? path = none) {chain : Chain} {params : Params}
    (hlookup : matcher.lookup path = some (chain, params)) :
    ∃ w e, (a.trie.root.walks path 0).head? = some w ∧ e ∈ entries ∧ e.1.isStatic = false ∧
      e.2 = chain ∧ e.1.keys = w.visits.map Visit.key ∧
      Reading e.1.tokenize (piecesOf path w.visits) ∧ (piecesOf path w.visits).flatten = path ∧
      params = boundBy e.1.tokenize (piecesOf path w.visits) := by
  cases hwalks : a.trie.root.walks path 0 with
  | nil =>
      rw [h.lookup_none hstatic hwalks] at hlookup
      cases hlookup
  | cons w ws =>
      obtain ⟨p, hp, hkeys, hfound, -⟩ := h.lookup_walk hstatic (w := w) (by rw [hwalks]; rfl)
      rw [hlookup, Option.some.injEq, Prod.mk.injEq] at hfound
      obtain ⟨hmem, hdynamic⟩ := h.mem_pending.1 ⟨p, hp, rfl⟩
      obtain ⟨hreading, hflat⟩ := h.reading_of_walk (hwalks ▸ List.mem_cons_self : w ∈ _) hkeys
      exact ⟨w, _, rfl, hmem, hdynamic, hfound.1.symm, hkeys, hreading, hflat, hfound.2⟩

/-- A path that is not static is found as soon as one dynamic entry matches it. -/
theorem isSome_lookup (h : Built entries matcher a merged) {path : Path}
    (hstatic : a.statics.get? path = none) : (matcher.lookup path).isSome = true ↔
      ∃ e ∈ entries, e.1.isStatic = false ∧ e.1.Matches path := by
  constructor
  · intro hsome
    obtain ⟨⟨chain, params⟩, hlookup⟩ := Option.isSome_iff_exists.1 hsome
    obtain ⟨w, e, -, he, hdynamic, -, -, hreading, hflat, -⟩ := h.lookup_eq_some hstatic hlookup
    exact ⟨e, he, hdynamic, _, hreading, hflat⟩
  · rintro ⟨e, he, hdynamic, hmatches⟩
    obtain ⟨w, hw, -⟩ := h.exists_walk he hdynamic hmatches
    obtain ⟨first, hfirst⟩ := Option.isSome_iff_exists.1
      (List.isSome_head?.2 (List.ne_nil_of_mem hw))
    obtain ⟨p, -, -, hlookup, -⟩ := h.lookup_walk hstatic hfirst
    rw [hlookup, Option.isSome_some]

/-- The composite pattern leads to one route only. -/
theorem existsUnique_route (h : Built entries matcher a merged) {path : Path}
    (hstatic : a.statics.get? path = none) (hsome : (matcher.lookup path).isSome = true) :
    ∃ captures, (matcher.pattern.bind (·.search path)) = some captures ∧
      ∃! n, captures.participates n = true ∧ ∃ r, matcher.routes[n]? = some (some r) := by
  obtain ⟨⟨chain, params⟩, hlookup⟩ := Option.isSome_iff_exists.1 hsome
  obtain ⟨w, -, hw, -⟩ := h.lookup_eq_some hstatic hlookup
  obtain ⟨-, -, -, -, hunique⟩ := h.lookup_walk hstatic hw
  exact hunique

/-- The answer to a path is that of an entry: the static one of the path, or a dynamic one that
binds the parameters. -/
theorem exists_entry (h : Built entries matcher a merged) (hdistinct : (entries.map Prod.fst).Nodup)
    {path : Path} {chain : Chain} {params : Params}
    (hlookup : matcher.lookup path = some (chain, params)) :
    ∃ e ∈ entries, e.2 = chain ∧ ((e.1.isStatic = true ∧ e.1 = path ∧ params = []) ∨
      (e.1.isStatic = false ∧ e.1.Binds path params)) := by
  by_cases hstatic : ∃ e ∈ entries, e.1.isStatic = true ∧ e.1 = path
  · obtain ⟨e, he, hs, rfl⟩ := hstatic
    have hget := h.get?_statics hs he fun e' he' heq =>
      congrArg Prod.snd (List.inj_on_of_nodup_map hdistinct he' he heq)
    rw [h.lookup_static hget, Option.some.injEq, Prod.mk.injEq] at hlookup
    exact ⟨e, he, hlookup.1, Or.inl ⟨hs, rfl, hlookup.2.symm⟩⟩
  · have hnone : a.statics.get? path = none :=
      h.get?_statics_eq_none.2 fun e he hs heq => hstatic ⟨e, he, hs, heq⟩
    obtain ⟨w, e, -, he, hdynamic, hchain, -, hreading, hflat, hparams⟩ :=
      h.lookup_eq_some hnone hlookup
    refine ⟨e, he, hchain, Or.inr ⟨hdynamic, ?_, ?_, _, hreading, hflat, hparams⟩⟩
    · rw [hparams, map_fst_boundBy hreading]
    · intro pair hpair
      exact value_boundBy hreading (hparams ▸ hpair)

end Built

/-- One composite pattern answers as if every route were tried on its own. -/
theorem lookup_as_alone [SizeRule] {config : Config} {entries : List Entry} {matcher : Matcher}
    (hbuild : build config entries = .ok matcher) (hdistinct : (entries.map Prod.fst).Nodup)
    (path : Path) :
    (∀ e ∈ entries, e.1.isStatic = true → e.1 = path → matcher.lookup path = some (e.2, [])) ∧
    ((∀ e ∈ entries, e.1.isStatic = true → e.1 ≠ path) →
      ((matcher.lookup path).isSome = true ↔
        ∃ e ∈ entries, e.1.isStatic = false ∧ e.1.Matches path) ∧
      ∀ chain params, matcher.lookup path = some (chain, params) →
        (∃ e ∈ entries, e.1.isStatic = false ∧ e.1.Matches path ∧ e.2 = chain) ∧
        ∃ captures, (matcher.pattern.bind (·.search path)) = some captures ∧
          ∃! n, captures.participates n = true ∧ ∃ r, matcher.routes[n]? = some (some r)) := by
  obtain ⟨a, merged, h⟩ := exists_built hbuild
  refine ⟨?_, fun hno => ?_⟩
  · rintro e he hstatic rfl
    apply h.lookup_static
    apply h.get?_statics hstatic he
    intro e' he' heq
    exact congrArg Prod.snd (List.inj_on_of_nodup_map hdistinct he' he heq)
  · have hnone : a.statics.get? path = none := h.get?_statics_eq_none.2 hno
    refine ⟨h.isSome_lookup hnone, fun chain params hlookup => ⟨?_, ?_⟩⟩
    · obtain ⟨w, e, -, he, hdynamic, hchain, -, hreading, hflat, -⟩ :=
        h.lookup_eq_some hnone hlookup
      exact ⟨e, he, hdynamic, ⟨_, hreading, hflat⟩, hchain⟩
    · exact h.existsUnique_route hnone (by rw [hlookup, Option.isSome_some])

/-- A label that two routes share, one by name, beside a static path and a wildcard. -/
theorem lookup_as_alone_shared_label :
    ∃ matcher, build {} [("/f/:a/x".toList, [0]), ("/f/*/y".toList, [1]), ("/f".toList, [2]),
        ("/*".toList, [3])] = .ok matcher ∧
      matcher.lookup "/f/u/y".toList = some ([1], []) ∧
      ∃ captures, (matcher.pattern.bind (·.search "/f/u/y".toList)) = some captures ∧
        ∃! n, captures.participates n = true ∧ ∃ r, matcher.routes[n]? = some (some r) := by
  have hfound : (build {} [("/f/:a/x".toList, [0]), ("/f/*/y".toList, [1]), ("/f".toList, [2]),
      ("/*".toList, [3])]).toOption.bind (fun matcher => matcher.lookup "/f/u/y".toList) =
        some ([1], []) := by
    cbv
  obtain ⟨matcher, hbuild, hlookup⟩ := exists_ok_of_toOption_bind hfound
  obtain ⟨-, hdynamic⟩ := lookup_as_alone hbuild (by decide) "/f/u/y".toList
  exact ⟨matcher, hbuild, hlookup, ((hdynamic (by decide)).2 _ _ hlookup).2⟩

/-- The parameters of an answer rebuild the path, with the names of the entry that the chain is
from. A chain that only one entry has tells the entry. -/
theorem params_rebuild [SizeRule] {config : Config} {entries : List Entry} {matcher : Matcher}
    (hbuild : build config entries = .ok matcher) (hdistinct : (entries.map Prod.fst).Nodup)
    {path : Path} {chain : Chain} {params : Params}
    (hlookup : matcher.lookup path = some (chain, params)) :
    (∃ e ∈ entries, e.2 = chain ∧ ((e.1.isStatic = true ∧ e.1 = path ∧ params = []) ∨
      (e.1.isStatic = false ∧ e.1.Binds path params))) ∧
    ∀ e ∈ entries, e.1.isStatic = false → e.2 = chain → (∀ e' ∈ entries, e'.2 = chain → e' = e) →
      e.1.Binds path params := by
  obtain ⟨a, merged, h⟩ := exists_built hbuild
  obtain ⟨found, hfound, hchain, hbinds⟩ := h.exists_entry hdistinct hlookup
  refine ⟨⟨found, hfound, hchain, hbinds⟩, fun e _ hdynamic _ honly => ?_⟩
  obtain rfl := honly found hfound hchain
  rcases hbinds with ⟨hstatic, -⟩ | ⟨-, hbinds⟩
  · rw [hdynamic] at hstatic
    cases hstatic
  · exact hbinds

/-- A label that is anonymous to one route, and has two names among the others. -/
theorem params_rebuild_shared_label :
    ∃ matcher, build {} [("/:a/x*".toList, [0]), ("/:b/y/*".toList, [1]),
        ("/*/y".toList, [2])] = .ok matcher ∧
      matcher.lookup "/u/y/z".toList = some ([1], [(['b'], ['u'])]) ∧
      Path.Binds "/:b/y/*".toList "/u/y/z".toList [(['b'], ['u'])] := by
  have hfound : (build {} [("/:a/x*".toList, [0]), ("/:b/y/*".toList, [1]),
      ("/*/y".toList, [2])]).toOption.bind (fun matcher => matcher.lookup "/u/y/z".toList) =
        some ([1], [(['b'], ['u'])]) := by
    cbv
  obtain ⟨matcher, hbuild, hlookup⟩ := exists_ok_of_toOption_bind hfound
  refine ⟨matcher, hbuild, hlookup, ?_⟩
  refine (params_rebuild hbuild (by decide) hlookup).2 ("/:b/y/*".toList, [1]) ?_ ?_ rfl ?_
  · decide
  · decide
  · decide

end Matcher

end PathRouter
