import Mathlib
import PathRouter.Proofs.Matcher.Single
import PathRouter.Proofs.Path.Values

/-!
Paths with parameters, looked up with values in their places. A path is looked up as it stands
unless a colon follows a slash, but its tokens have a parameter behind any colon. So a path whose
parameters all stand behind other characters is static, and never reads them.
-/

namespace PathRouter

theorem Path.isStatic_of_notMem {path : Path} (h : '*' ∉ path) :
    path.isStatic = !path.hasSlashColon := by
  rw [isStatic, List.contains_eq_mem, decide_eq_false h, Bool.not_false, Bool.true_and]

namespace Matcher

/-- A path without stars in which a colon follows a slash serves every text that values make of it,
and binds its parameters to them. Any other path without stars serves itself only. -/
theorem lookup_withValues [SizeRule] {path : Path} {chain : Chain} (hstar : '*' ∉ path)
    (hlimits : ∀ cause, build {} [(path, chain)] ≠ .error (.pattern cause)) :
    ∃ matcher, build {} [(path, chain)] = .ok matcher ∧
      (path.hasSlashColon = true → matcher.statics.keys = [] ∧
        ∀ values, values.length = (paramNames path.tokenize).length →
          (∀ value ∈ values, value ≠ [] ∧ '/' ∉ value) →
          matcher.lookup (path.withValues values) =
            some (chain, (paramNames path.tokenize).zip values)) ∧
      (path.hasSlashColon = false → matcher.statics.keys = [path] ∧
        ∀ text, matcher.lookup text = if text = path then some (chain, []) else none) := by
  obtain ⟨matcher, a, merged, hbuild, h⟩ := exists_built_singleton hlimits
  have hstatic := Path.isStatic_of_notMem hstar
  have hkeys := h.keys_statics_singleton
  refine ⟨matcher, hbuild, fun hcolon => ?_, fun hcolon => ?_⟩
  · rw [hcolon, Bool.not_true] at hstatic
    refine ⟨by rw [hkeys, hstatic]; rfl, fun values hlength hvalues => ?_⟩
    -- the pieces of the text are the only ones that the tokens read, so they hold the values
    obtain ⟨params, hlookup, hbinds⟩ :=
      h.lookup_singleton hstatic (Path.matches_withValues hstar hlength hvalues)
    obtain ⟨pieces, hreading, hflat, rfl⟩ := hbinds.rebuilds
    rw [hlookup, Path.boundBy_withValues hstar hlength hvalues hreading hflat]
  · rw [hcolon, Bool.not_false] at hstatic
    exact ⟨by rw [hkeys, hstatic]; rfl, h.lookup_singleton_static hstatic⟩

/-- A parameter inside a segment beside one that fills its segment. -/
theorem lookup_withValues_inner : ∃ matcher, build {} [("/a:x/:y".toList, [0])] = .ok matcher ∧
    matcher.statics.keys = [] ∧
    matcher.lookup "/a1/2".toList = some ([0], [(['x'], ['1']), (['y'], ['2'])]) := by
  have hbuilt : (build {} [("/a:x/:y".toList, [0])]).toOption.isSome = true := by cbv
  obtain ⟨matcher, hbuild, hserved, -⟩ :=
    lookup_withValues (by decide) fun _ => ne_error_of_toOption hbuilt _
  obtain ⟨hkeys, hlookup⟩ := hserved (by decide)
  refine ⟨matcher, hbuild, hkeys, ?_⟩
  have hvalues := hlookup [['1'], ['2']] (by decide +kernel) (by decide)
  rwa [show Path.withValues "/a:x/:y".toList [['1'], ['2']] = "/a1/2".toList by decide +kernel,
    show (paramNames (Path.tokenize "/a:x/:y".toList)).zip [['1'], ['2']] =
      [(['x'], ['1']), (['y'], ['2'])] by decide +kernel] at hvalues

/-- A parameter that does not stand behind a slash is taken for text: the path is static, and does
not serve what a value makes of it. -/
theorem parameter_taken_for_text : paramNames (Path.tokenize "/a:x".toList) = [['x']] ∧
    Path.withValues "/a:x".toList [['7']] = "/a7".toList ∧
    ∃ matcher, build {} [("/a:x".toList, [0])] = .ok matcher ∧
      matcher.statics.keys = ["/a:x".toList] ∧ matcher.lookup "/a7".toList = none := by
  refine ⟨by decide +kernel, by decide +kernel, ?_⟩
  have hfound : (build {} [("/a:x".toList, [0])]).toOption.bind (fun matcher =>
      some (matcher.statics.keys, matcher.lookup "/a7".toList)) = some (["/a:x".toList], none) := by
    cbv
  obtain ⟨matcher, hbuild, hfound⟩ := exists_ok_of_toOption_bind hfound
  obtain ⟨hkeys, hlookup⟩ := Prod.mk.inj (Option.some.inj hfound)
  exact ⟨matcher, hbuild, hkeys, hlookup⟩

end Matcher

end PathRouter
