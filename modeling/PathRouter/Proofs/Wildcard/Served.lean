import Mathlib
import PathRouter.Proofs.Matcher.Single
import PathRouter.Proofs.Wildcard.Suffix

/-!
What a wildcard covers, and what it serves as an entry. Both are read off the same keys, once from
the path as it stands and once from its tokens. Only `*` makes a difference: it covers every path,
but as an entry it is a star like any other one, which reads no line feed.
-/

namespace PathRouter

theorem Path.keys_star : Path.keys ['*'] = [.onlyWildcard] := by
  decide +kernel

namespace Matcher

/-- As the only entry, a suffix wildcard without colons serves exactly what it covers; but `*`
covers every text, and serves those without a line feed. -/
theorem served_iff_covered [SizeRule] {config : Config} {path : Path} {chain : Chain}
    {wildcard : Wildcard} (hsuffix : path.IsSuffixWildcard) (hcolon : ':' ∉ path)
    (hcompiled : Wildcard.ofPath path = .ok wildcard)
    (hlimits : ∀ cause, build config [(path, chain)] ≠ .error (.pattern cause)) :
    ∃ matcher, build config [(path, chain)] = .ok matcher ∧
      (path ≠ ['*'] → ∀ text, (matcher.lookup text).isSome = wildcard.covers text) ∧
      (path = ['*'] → ∀ text, wildcard.covers text = true ∧
        ((matcher.lookup text).isSome = true ↔ '\n' ∉ text)) := by
  obtain ⟨matcher, a, merged, hbuild, h⟩ := exists_built_singleton hlimits
  have hserved (text : List Char) : (matcher.lookup text).isSome = true ↔
      Key.ReadAll path.keys text := by
    rw [h.isSome_lookup_singleton hsuffix.isStatic, Path.matches_iff]
  refine ⟨matcher, hbuild, fun hstar text => ?_, fun hstar text => ⟨?_, ?_⟩⟩
  · rw [Bool.eq_iff_iff, hserved, Path.covers_ofPath hcompiled, Path.Covers,
      Path.keys_eq_globKeys hsuffix hcolon, or_iff_right hstar]
  · exact (Path.covers_ofPath hcompiled).2 (Or.inl hstar)
  · rw [hserved, hstar, Path.keys_star, Key.readAll_singleton]
    exact Iff.rfl

/-- A wildcard behind a slash serves the path before the slash too. -/
theorem served_iff_covered_tail : ∃ wildcard matcher,
    Wildcard.ofPath "/a(/*".toList = .ok wildcard ∧
    build {} [("/a(/*".toList, [0])] = .ok matcher ∧ wildcard.covers "/a(".toList = true ∧
    ∀ text, (matcher.lookup text).isSome = wildcard.covers text := by
  have hbuilt : (build {} [("/a(/*".toList, [0])]).toOption.isSome = true := by cbv
  have hcovers : (Wildcard.ofPath "/a(/*".toList).toOption.bind
      (fun wildcard => some (wildcard.covers "/a(".toList)) = some true := by
    cbv
  obtain ⟨wildcard, hcompiled, hcovered⟩ := exists_ok_of_toOption_bind hcovers
  obtain ⟨matcher, hbuild, hagree, -⟩ :=
    served_iff_covered ⟨by decide, by decide⟩ (by decide) hcompiled
      fun _ => ne_error_of_toOption hbuilt _
  exact ⟨wildcard, matcher, hcompiled, hbuild, Option.some.inj hcovered, hagree (by decide)⟩

/-- The wildcard `*` covers a path with a line feed, and does not serve it. -/
theorem star_misses_line_feed : ∃ wildcard matcher, Wildcard.ofPath "*".toList = .ok wildcard ∧
    build {} [("*".toList, [0])] = .ok matcher ∧ wildcard.covers "/a\nb".toList = true ∧
    matcher.lookup "/a\nb".toList = none := by
  have hlookup : (build {} [("*".toList, [0])]).toOption.bind
      (fun matcher => some (matcher.lookup "/a\nb".toList)) = some none := by
    cbv
  obtain ⟨matcher, hbuild, hlookup⟩ := exists_ok_of_toOption_bind hlookup
  exact ⟨.everything, matcher, rfl, hbuild, rfl, Option.some.inj hlookup⟩

end Matcher

end PathRouter
