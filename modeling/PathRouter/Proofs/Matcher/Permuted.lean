import Mathlib
import PathRouter.Proofs.Matcher.Specific
import PathRouter.Proofs.Trie.Outline

/-!
The order of the entries does not matter. It decides which index a route gets and which slots the
parameters get, and whether it is the first path or a later one that turns a label into a group. But
the same key lists end in routes, so the tries have the same outline; a path takes the same first
walk through both of them, and finds the same entry at its end.
-/

namespace PathRouter

namespace Matcher

namespace Built

variable {entries entries' : List Entry} {matcher matcher' : Matcher} {a a' : Assembly}
  {merged merged' : List Route}

theorem isSome_routeAt_iff (h : Built entries matcher a merged) {ks : List Key} :
    (a.trie.root.routeAt ks).isSome ↔ ∃ e ∈ entries, e.1.isStatic = false ∧ e.1.keys = ks := by
  rw [Option.isSome_iff_exists]
  constructor
  · rintro ⟨i, hroute⟩
    obtain ⟨p, hp, rfl⟩ := (h.holds.routes ks i).1 hroute
    obtain ⟨he, hdynamic⟩ := h.mem_pending.1 ⟨p, List.mem_of_getElem? hp, rfl⟩
    exact ⟨_, he, hdynamic, rfl⟩
  · rintro ⟨e, he, hdynamic, rfl⟩
    obtain ⟨i, p, hp, rfl⟩ := h.exists_pending he hdynamic
    exact ⟨i, (h.holds.routes _ i).2 ⟨p, hp, rfl⟩⟩

theorem sameEnds (h : Built entries matcher a merged) (h' : Built entries' matcher' a' merged')
    (hmem : ∀ e, e ∈ entries' ↔ e ∈ entries) : a.trie.root.SameEnds a'.trie.root := by
  intro ks
  rw [Bool.eq_iff_iff, h.isSome_routeAt_iff, h'.isSome_routeAt_iff]
  simp only [hmem]

/-- A path that is static to neither of two matchers of the same entries is answered alike. -/
theorem lookup_eq_of_not_static (h : Built entries matcher a merged)
    (h' : Built entries' matcher' a' merged') (hmem : ∀ e, e ∈ entries' ↔ e ∈ entries)
    {path : Path} (hstatic : a.statics.get? path = none) (hstatic' : a'.statics.get? path = none) :
    matcher'.lookup path = matcher.lookup path := by
  have hwalks := congrArg List.head?
    ((h.sameEnds h' hmem).walks h.holds.proper h'.holds.proper path 0)
  rw [List.head?_map, List.head?_map] at hwalks
  cases hfirst : (a.trie.root.walks path 0).head? with
  | none =>
      rw [hfirst, Option.map_none, eq_comm, Option.map_eq_none_iff] at hwalks
      rw [h.lookup_none hstatic (List.head?_eq_none_iff.1 hfirst),
        h'.lookup_none hstatic' (List.head?_eq_none_iff.1 hwalks)]
  | some w =>
      rw [hfirst, Option.map_some, eq_comm, Option.map_eq_some_iff] at hwalks
      obtain ⟨w', hfirst', houtline⟩ := hwalks
      obtain ⟨p, hp, hkeys, hlookup, -⟩ := h.lookup_walk hstatic hfirst
      obtain ⟨p', hp', hkeys', hlookup', -⟩ := h'.lookup_walk hstatic' hfirst'
      -- the walks go along the same keys, which belong to one entry only
      have hsame : p'.path.keys = p.path.keys := by
        rw [hkeys, hkeys', ← w'.keys_outline, houtline, w.keys_outline]
      obtain ⟨he, hdynamic⟩ := h.mem_pending.1 ⟨p, hp, rfl⟩
      obtain ⟨he', hdynamic'⟩ := h'.mem_pending.1 ⟨p', hp', rfl⟩
      have hentry : (p'.path, p'.chain) = (p.path, p.chain) :=
        h.eq_of_keys_eq ((hmem _).1 he') he hdynamic' hdynamic hsame
      obtain ⟨hpath, hchain⟩ := Prod.mk.inj hentry
      rw [hlookup, hlookup', hpath, hchain, ← piecesOf_outline, houtline, piecesOf_outline]

end Built

/-- Matchers that are built of the same entries in different orders answer every path alike: with
the same chain and the same parameters, or not at all. -/
theorem lookup_perm [SizeRule] {config config' : Config} {entries entries' : List Entry}
    {matcher matcher' : Matcher} (hdistinct : (entries.map Prod.fst).Nodup)
    (hperm : entries'.Perm entries) (hbuild : build config entries = .ok matcher)
    (hbuild' : build config' entries' = .ok matcher') (path : Path) :
    matcher'.lookup path = matcher.lookup path := by
  obtain ⟨a, merged, h⟩ := exists_built hbuild
  obtain ⟨a', merged', h'⟩ := exists_built hbuild'
  have hmem (e : Entry) : e ∈ entries' ↔ e ∈ entries := hperm.mem_iff
  by_cases hstatic : ∃ e ∈ entries, e.1.isStatic = true ∧ e.1 = path
  · obtain ⟨e, he, hs, rfl⟩ := hstatic
    have honly (e' : Entry) (he' : e' ∈ entries) (heq : e'.1 = e.1) : e'.2 = e.2 :=
      congrArg Prod.snd (List.inj_on_of_nodup_map hdistinct he' he heq)
    have honly' (e' : Entry) (he' : e' ∈ entries') : e'.1 = e.1 → e'.2 = e.2 :=
      honly e' ((hmem e').1 he')
    rw [h.lookup_static (h.get?_statics hs he honly),
      h'.lookup_static (h'.get?_statics hs ((hmem e).2 he) honly')]
  · have hnot (e : Entry) (he : e ∈ entries) (hs : e.1.isStatic = true) : e.1 ≠ path :=
      fun heq => hstatic ⟨e, he, hs, heq⟩
    exact h.lookup_eq_of_not_static h' hmem (h.get?_statics_eq_none.2 hnot)
      (h'.get?_statics_eq_none.2 fun e he => hnot e ((hmem e).1 he))

/-- Paths of one length that share a label: in one order it has a name at once, and in the other one
it gets its name when a route goes through it already. -/
theorem lookup_perm_shared_label : ∃ matcher matcher',
    build {} [("/:a/x".toList, [0]), ("/*/yy".toList, [1]), ("/s".toList, [2])] = .ok matcher ∧
    build {} [("/s".toList, [2]), ("/*/yy".toList, [1]), ("/:a/x".toList, [0])] = .ok matcher' ∧
    matcher.lookup "/u/x".toList = some ([0], [(['a'], ['u'])]) ∧
    matcher'.lookup "/u/x".toList = some ([0], [(['a'], ['u'])]) := by
  have hfound : (build {} [("/:a/x".toList, [0]), ("/*/yy".toList, [1]),
      ("/s".toList, [2])]).toOption.bind (fun matcher => matcher.lookup "/u/x".toList) =
        some ([0], [(['a'], ['u'])]) := by
    cbv
  have hbuilt : (build {} [("/s".toList, [2]), ("/*/yy".toList, [1]),
      ("/:a/x".toList, [0])]).toOption.bind (fun matcher => matcher.lookup "/s".toList) =
        some ([2], []) := by
    cbv
  obtain ⟨matcher, hbuild, hlookup⟩ := exists_ok_of_toOption_bind hfound
  obtain ⟨matcher', hbuild', -⟩ := exists_ok_of_toOption_bind hbuilt
  refine ⟨matcher, matcher', hbuild, hbuild', hlookup, ?_⟩
  rw [lookup_perm (by decide) (by decide) hbuild hbuild', hlookup]

end Matcher

end PathRouter
