import PathRouter.Proofs.Matcher.Conflicts

/-!
Matchers of one entry. There is nothing that the entry could conflict with, so only a limit keeps
the matcher from being built. A static entry then serves its own path and nothing else, and a
dynamic one exactly what it matches on its own.
-/

namespace PathRouter

namespace Matcher

/-- Only a conflict or a limit keeps a matcher from being built. -/
theorem exists_build [SizeRule] {config : Config} {entries : List Entry}
    (hfree : ConflictFree (shortestFirst entries))
    (hlimits : ∀ cause, build config entries ≠ .error (.pattern cause)) :
    ∃ matcher, build config entries = .ok matcher := by
  obtain ⟨a, ha⟩ := Assembly.exists_of_conflictFree hfree
  obtain ⟨merged, hmerged⟩ := exists_mapM_route (Assembly.holds_of_foldlM ha)
  cases hbuild : build config entries with
  | ok matcher => exact ⟨matcher, rfl⟩
  | error cause =>
      have hcause := hbuild
      simp only [build_eq_compose, compose, bind, Except.bind, ha, hmerged] at hcause
      split at hcause
      · cases hcause
      · split at hcause
        · cases hcause
        · next limit _ =>
            cases hcause
            exact absurd hbuild (hlimits limit)

variable {config : Config} {entry : Entry} {matcher : Matcher} {a : Assembly} {merged : List Route}

theorem exists_built_singleton [SizeRule]
    (hlimits : ∀ cause, build config [entry] ≠ .error (.pattern cause)) :
    ∃ matcher a merged, build config [entry] = .ok matcher ∧ Built [entry] matcher a merged := by
  have hfree : ConflictFree (shortestFirst [entry]) := by
    rw [shortestFirst, List.mergeSort_singleton]
    exact List.pairwise_singleton ..
  obtain ⟨matcher, hbuild⟩ := exists_build hfree hlimits
  obtain ⟨a, merged, h⟩ := exists_built hbuild
  exact ⟨matcher, a, merged, hbuild, h⟩

namespace Built

theorem keys_statics_singleton (h : Built [entry] matcher a merged) :
    matcher.statics.keys = if entry.1.isStatic then [entry.1] else [] := by
  rw [h.statics, h.holds.statics, shortestFirst, List.mergeSort_singleton, staticEntries,
    List.filter_singleton]
  cases entry.1.isStatic <;> rfl

theorem lookup_singleton_static (h : Built [entry] matcher a merged)
    (hstatic : entry.1.isStatic = true) (text : List Char) :
    matcher.lookup text = if text = entry.1 then some (entry.2, []) else none := by
  split
  · next htext =>
      subst htext
      exact h.lookup_static (h.get?_statics hstatic List.mem_cons_self (by simp))
  · next htext =>
      have hnone : a.statics.get? text = none := h.get?_statics_eq_none.2 (by simp [Ne.symm htext])
      rw [← Option.not_isSome_iff_eq_none, h.isSome_lookup hnone]
      simp [hstatic]

variable (hdynamic : entry.1.isStatic = false)
include hdynamic

theorem isSome_lookup_singleton (h : Built [entry] matcher a merged) {text : List Char} :
    (matcher.lookup text).isSome = true ↔ entry.1.Matches text := by
  rw [h.isSome_lookup (h.get?_statics_eq_none.2 (by simp [hdynamic]))]
  simp [hdynamic]

/-- What it serves is answered with its chain, and with parameters that it binds. -/
theorem lookup_singleton (h : Built [entry] matcher a merged) {text : List Char}
    (hmatches : entry.1.Matches text) :
    ∃ params, matcher.lookup text = some (entry.2, params) ∧ entry.1.Binds text params := by
  obtain ⟨⟨chain, params⟩, hlookup⟩ :=
    Option.isSome_iff_exists.1 ((h.isSome_lookup_singleton hdynamic).2 hmatches)
  obtain ⟨e, he, rfl, hentry⟩ := h.exists_entry (List.nodup_singleton _) hlookup
  obtain rfl := List.mem_singleton.1 he
  rcases hentry with ⟨hstatic, -⟩ | ⟨-, hbinds⟩
  · rw [hdynamic] at hstatic
    cases hstatic
  · exact ⟨params, hlookup, hbinds⟩

end Built

end Matcher

end PathRouter
