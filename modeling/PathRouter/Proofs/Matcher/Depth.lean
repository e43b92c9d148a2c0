import Mathlib
import PathRouter.Proofs.Matcher.Conflicts
import PathRouter.Proofs.Trie.Depth

/-!
What the nest limit bounds. The depth of the pattern that a matcher compiles follows the branchings
of its trie, and nothing else: neither the number of routes nor the lengths of their paths.
-/

namespace PathRouter

/-- This many nodes with several alternatives are on the way to the end of a route, and on no other
way there are more. -/
def Trie.MostBranchings (trie : Trie) (most : Nat) : Prop :=
  IsGreatest {n | ∃ keys, (trie.root.routeAt keys).isSome ∧ trie.root.branchingsAlong keys = n} most

namespace Trie

theorem MostBranchings.eq_branchings {trie : Trie} {most : Nat} (h : trie.MostBranchings most)
    (hlive : trie.root.Live) : most = trie.root.branchings :=
  h.unique hlive.isGreatest_branchings

theorem History.ofCalls_concat (calls : List Insertion) (insertion : Insertion) :
    ofCalls (calls ++ [insertion]) = (ofCalls calls).call insertion := by
  rw [ofCalls, List.foldl_append]
  rfl

theorem depth_read {trie : Trie} (hlive : trie.root.Live) (hslots : trie.root.SlotsAtLabels) :
    ∃ most pattern, trie.MostBranchings most ∧ trie.compile.text.bind Pattern.read? = some pattern ∧
      3 * most + 2 ≤ pattern.depth ∧ pattern.depth ≤ 3 * most + 5 :=
  ⟨_, _, hlive.isGreatest_branchings,
    (read?_compile hlive.2).trans (pattern_composite_of_live hlive),
    depth_composite hlive hslots⟩

end Trie

namespace Assembly

theorem exists_ofCalls {entries : List Entry} {a : Assembly}
    (h : entries.foldlM place {} = .ok a) :
    ∃ calls, (Trie.History.ofCalls calls).trie = a.trie := by
  refine @foldlM_induction _ _ _
    (fun _ (a : Assembly) => ∃ calls, (Trie.History.ofCalls calls).trie = a.trie) _
    (fun _ a entry a' hcalls hplace => ?_) [] entries _ _ ⟨[], rfl⟩ h
  obtain ⟨calls, hcalls⟩ := hcalls
  obtain ⟨path, chain⟩ := entry
  refine ⟨calls ++ [{ path, index := a.pending.length, checkOnly := path.isStatic }], ?_⟩
  rw [Trie.History.ofCalls_concat, Trie.History.call, hcalls]
  cases hrun : (Trie.place { path, index := a.pending.length, checkOnly := path.isStatic }).run
      a.trie with
  | ok slots trie =>
      simp only [place, hrun, Except.ok.injEq] at hplace
      exact congrArg Assembly.trie hplace
  | error e trie => simp [place, hrun] at hplace

theorem Holds.live {entries : List Entry} {a : Assembly} (h : a.Holds entries)
    (hdynamic : ∃ entry ∈ entries, entry.1.isStatic = false) : a.trie.root.Live := by
  obtain ⟨entry, hentry, hdynamic⟩ := hdynamic
  have hmem := mem_dynamicEntries.2 ⟨hentry, hdynamic⟩
  rw [← h.pending] at hmem
  obtain ⟨p, hp, -⟩ := List.mem_map.1 hmem
  obtain ⟨i, hi⟩ := List.getElem?_of_mem hp
  exact Node.live_of_routeAt h.proper ((h.routes _ i).2 ⟨p, hi, rfl⟩)

theorem live_of_foldlM {entries : List Entry} {a : Assembly}
    (h : (Matcher.shortestFirst entries).foldlM place {} = .ok a)
    (hdynamic : ∃ entry ∈ entries, entry.1.isStatic = false) : a.trie.root.Live := by
  rw [foldlM_place] at h
  refine (holds_of_foldlM h).live ?_
  obtain ⟨entry, hentry, hdynamic⟩ := hdynamic
  exact ⟨entry, (Matcher.perm_shortestFirst entries).mem_iff.2 hentry, hdynamic⟩

end Assembly

namespace Matcher

/-- Once all entries are taken in, only the limits of the pattern can be exceeded. -/
theorem build_eq_pattern_iff [SizeRule] {config : Config} {entries : List Entry} {a : Assembly}
    (h : (shortestFirst entries).foldlM Assembly.place {} = .ok a) {pattern : Pattern}
    (hpattern : a.trie.composite.pattern = some pattern) {cause : PatternError} :
    build config entries = .error (.pattern cause) ↔ pattern.checked config = .error cause := by
  rw [Assembly.foldlM_place] at h
  obtain ⟨merged, hmerged⟩ := exists_mapM_route (Assembly.holds_of_foldlM h)
  rw [build_eq_compose, compose]
  simp only [bind, Except.bind, h, hmerged, hpattern]
  cases pattern.checked config with
  | ok p => exact iff_of_false (by rintro ⟨⟩) (by rintro ⟨⟩)
  | error cause' =>
      show Except.error _ = Except.error _ ↔ _
      rw [Except.error.injEq, Except.error.injEq, RouterError.pattern.injEq]

theorem checked_eq_tooDeep_iff [SizeRule] {config : Config} {pattern : Pattern} {limit : Nat} :
    pattern.checked config = .error (.tooDeep limit) ↔
      config.nestLimit < pattern.depth ∧ limit = config.nestLimit := by
  rw [Pattern.checked]
  split
  · next hdeep => simp [hdeep, eq_comm]
  · next hdeep => split <;> simp [hdeep]

/-- The depth of a trie's pattern, as it is read from the text, is told by the branchings on the way
with most of them. So whatever the entries of a matcher are, as soon as one of them is dynamic and
all can be taken in, the nest limit is exceeded if it is below what the branchings alone ask for,
and it is kept if it allows for what the keys may add. -/
theorem nestLimit_bounds_branchings [SizeRule] (calls : List Insertion)
    (h : (Trie.History.ofCalls calls).merged ≠ []) :
    (∃ most pattern, (Trie.History.ofCalls calls).trie.MostBranchings most ∧
      (Trie.History.ofCalls calls).trie.compile.text.bind Pattern.read? = some pattern ∧
      3 * most + 2 ≤ pattern.depth ∧ pattern.depth ≤ 3 * most + 5) ∧
    ∀ entries a, (shortestFirst entries).foldlM Assembly.place {} = .ok a →
      (∃ entry ∈ entries, entry.1.isStatic = false) →
      ∃ most, a.trie.MostBranchings most ∧ ∀ config : Config,
        (config.nestLimit < 3 * most + 2 →
          build config entries = .error (.pattern (.tooDeep config.nestLimit))) ∧
        (3 * most + 5 ≤ config.nestLimit →
          ∀ limit, build config entries ≠ .error (.pattern (.tooDeep limit))) := by
  refine ⟨Trie.depth_read ((Trie.History.sound_ofCalls calls).live h)
    (Trie.History.slotsAtLabels_ofCalls calls), fun entries a ha hdynamic => ?_⟩
  have hlive := Assembly.live_of_foldlM ha hdynamic
  obtain ⟨calls', hcalls'⟩ := Assembly.exists_ofCalls ha
  have hslots := Trie.History.slotsAtLabels_ofCalls calls'
  rw [hcalls'] at hslots
  obtain ⟨most, pattern, hmost, hread, hle, hge⟩ := Trie.depth_read hlive hslots
  rw [Trie.read?_compile hlive.2] at hread
  refine ⟨most, hmost, fun config => ⟨fun hlimit => ?_, fun hlimit limit => ?_⟩⟩
  · rw [build_eq_pattern_iff ha hread, checked_eq_tooDeep_iff]
    exact ⟨by omega, rfl⟩
  · rw [ne_eq, build_eq_pattern_iff ha hread, checked_eq_tooDeep_iff]
    omega

/-- Two branchings are on one way: where the first letters part, and where one path ends and another
goes on. -/
theorem nestLimit_bounds_branchings_two :
    let calls : List Insertion := [{ path := "/a/:id".toList, index := 0 },
      { path := "/a/:id/b".toList, index := 1 }, { path := "/b/*".toList, index := 2 }]
    let entries : List Entry := [("/a/:id/b".toList, [1]), ("/a/:id".toList, [0]),
      ("/b/*".toList, [2]), ("/c".toList, [3])]
    (Trie.History.ofCalls calls).merged ≠ [] ∧
      (∃ pattern, (Trie.History.ofCalls calls).trie.compile.text.bind Pattern.read? = some pattern ∧
        8 ≤ pattern.depth ∧ pattern.depth ≤ 11) ∧
      build { nestLimit := 7 } entries = .error (.pattern (.tooDeep 7)) ∧
      ∀ limit, build { nestLimit := 11 } entries ≠ .error (.pattern (.tooDeep limit)) := by
  intro calls entries
  have hcalls : (Trie.History.ofCalls calls).merged ≠ [] := by decide +kernel
  have hplaced : ((shortestFirst entries).foldlM Assembly.place {}).toOption.bind
      (fun a => some a.trie.root.branchings) = some 2 := by
    cbv
  obtain ⟨a, ha, hbranchings⟩ := exists_ok_of_toOption_bind hplaced
  have hdynamic : ∃ entry ∈ entries, entry.1.isStatic = false :=
    ⟨("/b/*".toList, [2]), by decide, rfl⟩
  obtain ⟨⟨most, pattern, hmost, hread, hdepth⟩, hentries⟩ :=
    nestLimit_bounds_branchings calls hcalls
  obtain ⟨most', hmost', hlimits⟩ := hentries entries a ha hdynamic
  -- both tries have two branchings
  have htwo : most = 2 := by
    rw [hmost.eq_branchings ((Trie.History.sound_ofCalls calls).live hcalls)]
    decide +kernel
  have htwo' : most' = 2 := by
    rw [hmost'.eq_branchings (Assembly.live_of_foldlM ha hdynamic)]
    exact Option.some.inj hbranchings
  rw [htwo] at hdepth
  rw [htwo'] at hlimits
  exact ⟨hcalls, ⟨pattern, hread, hdepth⟩, (hlimits { nestLimit := 7 }).1 (by decide),
    (hlimits { nestLimit := 11 }).2 (by decide)⟩

end Matcher

end PathRouter
