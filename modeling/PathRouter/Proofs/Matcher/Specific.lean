import PathRouter.Proofs.Matcher.Kept
import PathRouter.Proofs.Trie.Least

/-!
The most specific entry answers. Of all dynamic entries that match a path, it is the one whose keys
come first, and it is found whatever the order of the entries. This takes stars that fill their
segments: behind any other star, how far a label reads depends on what is tried first.
-/

namespace PathRouter

namespace Matcher

/-- The entry matches the path on its own, and its keys precede those of all others that do. -/
structure MostSpecific (entries : List Entry) (path : Path) (entry : Entry) : Prop where
  mem : entry ∈ entries
  dynamic : entry.1.isStatic = false
  matched : entry.1.Matches path
  least : ∀ other ∈ entries, other.1.isStatic = false → other.1.Matches path → other ≠ entry →
    Key.Precedes entry.1.keys other.1.keys

namespace MostSpecific

variable {entries entries' : List Entry} {path : Path} {entry other : Entry}

theorem unique (h : MostSpecific entries path entry) (h' : MostSpecific entries path other) :
    entry = other := by
  by_contra hne
  exact (h.least other h'.mem h'.dynamic h'.matched (Ne.symm hne)).asymm
    (h'.least entry h.mem h.dynamic h.matched hne)

theorem perm (h : MostSpecific entries path entry) (hperm : entries'.Perm entries) :
    MostSpecific entries' path entry where
  mem := hperm.mem_iff.2 h.mem
  dynamic := h.dynamic
  matched := h.matched
  least other hother := h.least other (hperm.mem_iff.1 hother)

end MostSpecific

namespace Built

variable {entries : List Entry} {matcher : Matcher} {a : Assembly} {merged : List Route}

theorem eq_of_keys_eq (h : Built entries matcher a merged) {e e' : Entry} (he : e ∈ entries)
    (he' : e' ∈ entries) (hdynamic : e.1.isStatic = false) (hdynamic' : e'.1.isStatic = false)
    (hkeys : e.1.keys = e'.1.keys) : e = e' := by
  obtain ⟨i, p, hp, rfl⟩ := h.exists_pending he hdynamic
  obtain ⟨i', p', hp', rfl⟩ := h.exists_pending he' hdynamic'
  have hroute := (h.holds.routes _ i).2 ⟨p, hp, rfl⟩
  have hroute' := (h.holds.routes _ i').2 ⟨p', hp', rfl⟩
  simp only at hkeys
  rw [hkeys, hroute', Option.some.injEq] at hroute
  rw [hroute, hp, Option.some.injEq] at hp'
  rw [hp']

/-- A path that is not static is answered by the most specific entry that matches it. -/
theorem exists_mostSpecific (h : Built entries matcher a merged)
    (hstars : ∀ e ∈ entries, e.1.isStatic = false → e.1.StarsFillSegments) {path : Path}
    (hstatic : ∀ e ∈ entries, e.1.isStatic = true → e.1 ≠ path)
    (hmatched : ∃ e ∈ entries, e.1.isStatic = false ∧ e.1.Matches path) :
    ∃ entry, MostSpecific entries path entry ∧
      ∃ params, matcher.lookup path = some (entry.2, params) := by
  have hnone : a.statics.get? path = none := h.get?_statics_eq_none.2 hstatic
  obtain ⟨⟨chain, params⟩, hlookup⟩ :=
    Option.isSome_iff_exists.1 ((h.isSome_lookup hnone).2 hmatched)
  obtain ⟨first, entry, hfirst, hentry, hdynamic, rfl, hkeys, hreading, hflat, -⟩ :=
    h.lookup_eq_some hnone hlookup
  have hstops (ks : List Key) (hsome : (a.trie.root.routeAt ks).isSome) :
      ks.IsChain Key.StopsBefore := by
    obtain ⟨i, hroute⟩ := Option.isSome_iff_exists.1 hsome
    obtain ⟨p, hp, rfl⟩ := (h.holds.routes ks i).1 hroute
    obtain ⟨hmem, hdynamic⟩ := h.mem_pending.1 ⟨p, List.mem_of_getElem? hp, rfl⟩
    exact (hstars _ hmem hdynamic).isChain_keys
  refine ⟨entry, ⟨hentry, hdynamic, ⟨_, hreading, hflat⟩, ?_⟩, params, hlookup⟩
  intro other hother hdynamic' hmatches hne
  obtain ⟨w, hw, hkeys'⟩ := h.exists_walk hother hdynamic' hmatches
  rcases Node.first_least h.holds.proper hstops hfirst hw with hsame | hprecedes
  · rw [← hkeys, hkeys'] at hsame
    exact absurd (h.eq_of_keys_eq hentry hother hdynamic hdynamic' hsame).symm hne
  · rwa [← hkeys, hkeys'] at hprecedes

end Built

/-- If stars fill their segments, the most specific entry that matches a path answers it. It does so
in every matcher of the same entries, whatever their order. -/
theorem lookup_most_specific [SizeRule] {config : Config} {entries : List Entry} {matcher : Matcher}
    (hbuild : build config entries = .ok matcher)
    (hstars : ∀ e ∈ entries, e.1.isStatic = false → e.1.StarsFillSegments) (path : Path)
    (hstatic : ∀ e ∈ entries, e.1.isStatic = true → e.1 ≠ path)
    (hmatched : ∃ e ∈ entries, e.1.isStatic = false ∧ e.1.Matches path) :
    ∃ entry, MostSpecific entries path entry ∧
      (∃ params, matcher.lookup path = some (entry.2, params)) ∧
      ∀ config' entries' matcher', entries'.Perm entries → build config' entries' = .ok matcher' →
        ∃ params, matcher'.lookup path = some (entry.2, params) := by
  obtain ⟨a, merged, h⟩ := exists_built hbuild
  obtain ⟨entry, hentry, hlookup⟩ := h.exists_mostSpecific hstars hstatic hmatched
  refine ⟨entry, hentry, hlookup, fun config' entries' matcher' hperm hbuild' => ?_⟩
  obtain ⟨a', merged', h'⟩ := exists_built hbuild'
  have hmem (e : Entry) : e ∈ entries' ↔ e ∈ entries := hperm.mem_iff
  obtain ⟨entry', hentry', hlookup'⟩ := h'.exists_mostSpecific
    (fun e he => hstars e ((hmem e).1 he)) (fun e he => hstatic e ((hmem e).1 he))
    (hmatched.imp fun e he => ⟨(hmem e).2 he.1, he.2⟩)
  rwa [hentry'.unique (hentry.perm hperm)] at hlookup'

/-- Four wildcards and a parameter for one path, the widest one first. -/
theorem lookup_most_specific_nested :
    ∃ matcher, build {} [("*".toList, [0]), ("/*".toList, [1]), ("/a/*".toList, [2]),
        ("/a/:id".toList, [3]), ("/a/:id/*".toList, [4])] = .ok matcher ∧
      ∃ entry, MostSpecific [("*".toList, [0]), ("/*".toList, [1]), ("/a/*".toList, [2]),
        ("/a/:id".toList, [3]), ("/a/:id/*".toList, [4])] "/a/b".toList entry ∧ entry.2 = [3] := by
  have hfound : (build {} [("*".toList, [0]), ("/*".toList, [1]), ("/a/*".toList, [2]),
      ("/a/:id".toList, [3]), ("/a/:id/*".toList, [4])]).toOption.bind
        (fun matcher => matcher.lookup "/a/b".toList) = some ([3], [("id".toList, ['b'])]) := by
    cbv
  obtain ⟨matcher, hbuild, hlookup⟩ := exists_ok_of_toOption_bind hfound
  have hkeys : Path.keys "*".toList = [.onlyWildcard] := by cbv
  have hmatched : Path.Matches "*".toList "/a/b".toList := by
    rw [Path.matches_iff, hkeys, Key.readAll_singleton, Key.Reads]
    decide
  obtain ⟨entry, hentry, ⟨params, hanswer⟩, -⟩ := lookup_most_specific hbuild (by decide +kernel)
    "/a/b".toList (by decide) ⟨_, List.mem_cons_self, by decide, hmatched⟩
  rw [hlookup, Option.some.injEq, Prod.mk.injEq] at hanswer
  exact ⟨matcher, hbuild, entry, hentry, hanswer.1.symm⟩

end Matcher

end PathRouter
