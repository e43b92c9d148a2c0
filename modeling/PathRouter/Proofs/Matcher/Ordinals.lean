import Mathlib
import PathRouter.Proofs.Matcher.Conflicts

/-!
The ordinals of a compiled trie. The brackets of its text are counted by them, each of them is that
of one route or of one slot, and a matcher in the making finds an ordinal wherever it looks for one.
-/

namespace PathRouter

/-- Every merged entry gets its route, and every route that is asked for is handed out. -/
theorem Assembly.Holds.exists_handOut {entries : List Entry} {a : Assembly} (h : a.Holds entries) :
    ∃ merged, a.pending.mapM (Pending.remap a.trie.compile.ordinals) = .ok merged ∧
      ∀ n i : Nat, a.trie.compile.routes[n]? = some (some i) → ∃ route, merged[i]? = some route ∧
        (handOut a.trie.compile.routes (merged.map some))[n]? = some (some route) := by
  obtain ⟨merged, hmerged⟩ := Matcher.exists_mapM_route h
  refine ⟨merged, by rw [mapM_congr fun p hp => h.remap_eq_route hp, hmerged], fun n i hn => ?_⟩
  rw [Trie.routes_compile] at hn
  -- the group in the place of the ordinal is that of a merged entry
  have hgroup := Composite.mem_groups_of_groupOf? (Composite.getElem?_routeOf_iff.1 hn)
  obtain ⟨ks, hks⟩ := Trie.exists_labels_of_mem_groups h.proper hgroup
  obtain ⟨p, hp, -⟩ := (h.routes ks i).1 hks
  obtain ⟨route, hroute, -⟩ := exists_getElem?_of_forall₂ (forall₂_of_mapM_eq_ok hmerged) hp
  refine ⟨route, hroute, ?_⟩
  rw [h.handOut_eq, List.getElem?_map, hn, Option.map_some, Option.bind_some, hroute]

/-- Whatever calls a trie comes from, if the merged paths have different indices: the capturing
brackets of the text are counted by the ordinals, each of which is that of one route or of one slot
and tells what its bracket opens; every merged path has one ordinal for its route, and ordinals for
its slots, which two parameters share just if they are at one node. So a matcher in the making finds
an ordinal for every parameter, and hands out a route wherever one is asked for. -/
theorem ordinals_exact (calls : List Insertion)
    (hdistinct : ((Trie.History.ofCalls calls).merged.map Trie.Record.index).Nodup) :
    let history := Trie.History.ofCalls calls
    let compiled := history.trie.compile
    (∃ lexemes, Pattern.lexemes? (compiled.text.getD []) = some lexemes ∧
      lexemes.flatMap Pattern.Lexeme.spelling = compiled.text.getD [] ∧
      Trie.Ordered compiled lexemes) ∧
    (∀ r ∈ history.merged, (∃! n : Nat, compiled.routes[n]? = some (some r.index)) ∧
      (∀ pair ∈ r.slots, ∃ n, compiled.ordinals[pair.2]? = some (some n)) ∧
      r.slots.length = r.path.parameterNodes.length ∧
      (∀ p ∈ r.slots.zip r.path.parameterNodes, history.trie.root.slotAt p.2 = some p.1.2) ∧
      ∀ r' ∈ history.merged, ∀ p ∈ r.slots.zip r.path.parameterNodes,
        ∀ p' ∈ r'.slots.zip r'.path.parameterNodes, p.1.2 = p'.1.2 ↔ p.2 = p'.2) ∧
    ∀ entries a, (Matcher.shortestFirst entries).foldlM Assembly.place {} = .ok a →
      ∃ merged, a.pending.mapM (Pending.remap a.trie.compile.ordinals) = .ok merged ∧
        ∀ n i : Nat, a.trie.compile.routes[n]? = some (some i) → ∃ route, merged[i]? = some route ∧
          (handOut a.trie.compile.routes (merged.map some))[n]? = some (some route) := by
  intro history compiled
  have hsound : history.Sound := Trie.History.sound_ofCalls calls
  refine ⟨?_, fun r hr => ?_, fun entries a ha => ?_⟩
  · obtain ⟨lexemes, hlexemes, hopens⟩ :=
      Trie.exists_opens hsound.proper (Trie.History.slotsAtLabels_ofCalls calls)
    refine ⟨lexemes, hlexemes, Pattern.lexemes?_eq_some_iff.1 hlexemes, ?_⟩
    obtain ⟨hnodup, hordinals⟩ := hsound.compile_eq hdistinct
    have hcompiled : compiled =
        ⟨compiled.text, history.trie.composite.routeOf, history.trie.composite.slotOrdinals⟩ := by
      rw [← Trie.routes_compile, ← hordinals]
    rw [hcompiled]
    exact Trie.ordered_of_opens hopens hnodup
      (Trie.slot_lt_of_mem_groups hsound.proper hsound.slots_below)
  · obtain ⟨hlength, hslot⟩ := hsound.slotAt_parameterNode hr
    refine ⟨hsound.existsUnique_ordinal hdistinct hr,
      fun pair hpair => hsound.exists_ordinal hdistinct hr hpair, hlength, hslot,
      fun r' hr' p hp p' hp' => ?_⟩
    have hp := hslot p hp
    have hp' := (hsound.slotAt_parameterNode hr').2 p' hp'
    constructor
    · intro hsame
      rw [hsame] at hp
      exact hsound.slots_below.apart _ _ _ hp hp'
    · intro hsame
      rw [hsame, hp'] at hp
      exact (Option.some.inj hp).symm
  · rw [Assembly.foldlM_place] at ha
    exact (Assembly.holds_of_foldlM ha).exists_handOut

/-- A slot that a refused path has claimed, and a path with a bracket of its own; and a matcher in
which two parameters share a slot. -/
theorem ordinals_exact_claimed :
    let calls : List Insertion := [{ path := "/a/*/b".toList, index := 5 },
      { path := "/a/:id/b".toList, index := 4 }, { path := "/a/:x/c".toList, index := 3 },
      { path := "/p(:q".toList, index := 9 }]
    let compiled : Compiled :=
      { text := some "^/(?:a/([^/]+)/(?:b$()|c$())|p\\(([^/]+)$())".toList
        routes := [none, none, some 5, some 3, none, some 9]
        ordinals := [some 1, some 4] }
    let entries : List Entry := [("/a/:x/c".toList, [0]), ("/a/:id".toList, [1])]
    ((Trie.History.ofCalls calls).merged.map Trie.Record.index).Nodup ∧
      (Trie.History.ofCalls calls).trie.compile = compiled ∧
      (∃ lexemes, Pattern.lexemes? (compiled.text.getD []) = some lexemes ∧
        lexemes.flatMap Pattern.Lexeme.spelling = compiled.text.getD [] ∧
        Trie.Ordered compiled lexemes) ∧
      ∃ a merged route, (Matcher.shortestFirst entries).foldlM Assembly.place {} = .ok a ∧
        a.pending.mapM (Pending.remap a.trie.compile.ordinals) = .ok merged ∧
        (handOut a.trie.compile.routes (merged.map some))[3]? = some (some route) := by
  intro calls compiled entries
  have hdistinct : ((Trie.History.ofCalls calls).merged.map Trie.Record.index).Nodup := by
    decide +kernel
  have hcompile : (Trie.History.ofCalls calls).trie.compile = compiled := by decide +kernel
  obtain ⟨hordered, -, hentries⟩ := ordinals_exact calls hdistinct
  rw [hcompile] at hordered
  have hplaced : ((Matcher.shortestFirst entries).foldlM Assembly.place {}).toOption.bind
      (fun a => a.trie.compile.routes[3]?) = some (some 1) := by
    cbv
  obtain ⟨a, ha, hthird⟩ := exists_ok_of_toOption_bind hplaced
  obtain ⟨merged, hmerged, hroutes⟩ := hentries entries a ha
  obtain ⟨route, -, hroute⟩ := hroutes 3 1 hthird
  exact ⟨hdistinct, hcompile, hordered, a, merged, route, ha, hmerged, hroute⟩

end PathRouter
