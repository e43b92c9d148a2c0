import Mathlib
import PathRouter.Proofs.Wildcard.Cache
import PathRouter.Proofs.Wildcard.Suffix

/-!
Suffix wildcards as a forest. Coverage is transitive among them, and those that cover one text form
a chain, from the shortest to the longest. So all that cover a path cover the longest one among
them, and what covers that one covers the path.
-/

namespace PathRouter

section

variable [SizeRule]

namespace Path

variable {w v : Path} {text : List Char}

theorem covers_trans (hw : w.IsSuffixWildcard) (hv : v.IsSuffixWildcard)
    (hwv : w.covers v = true) (hvt : v.covers text = true) : w.covers text = true := by
  rw [covers_iff] at hwv hvt ⊢
  exact ⟨hwv.1, hwv.2.trans hw hv hvt.2⟩

theorem covers_nested (hw : w.IsSuffixWildcard) (hv : v.IsSuffixWildcard) (hne : w ≠ v)
    (hwt : w.covers text = true) (hvt : v.covers text = true) :
    (w.byteLength < v.byteLength ∧ w.covers v = true) ∨
      (v.byteLength < w.byteLength ∧ v.covers w = true) := by
  rw [covers_iff] at hwt hvt
  rcases Covers.nested hw hv hne hwt.2 hvt.2 with ⟨hlt, hcovers⟩ | ⟨hlt, hcovers⟩
  · exact Or.inl ⟨hlt, covers_iff.2 ⟨hwt.1, hcovers⟩⟩
  · exact Or.inr ⟨hlt, covers_iff.2 ⟨hvt.1, hcovers⟩⟩

/-- All that cover a text cover the longest one that does. -/
theorem covers_longest (hw : w.IsSuffixWildcard) (hv : v.IsSuffixWildcard)
    (hwt : w.covers text = true) (hvt : v.covers text = true) (hle : w.byteLength ≤ v.byteLength) :
    w.covers v = true := by
  by_cases hwv : w = v
  · rw [covers_iff] at hvt ⊢
    rw [hwv]
    exact ⟨hvt.1, covers_self v⟩
  · rcases covers_nested hw hv hwv hwt hvt with ⟨-, hcovers⟩ | ⟨hlt, -⟩
    · exact hcovers
    · exact absurd hlt (Nat.not_lt.2 hle)

/-- Different suffix wildcards that cover one text have different lengths, and the shorter one
covers the path of the longer one. What a suffix wildcard covers is covered by all that cover its
path. -/
theorem suffix_wildcards_nested (hw : w.IsSuffixWildcard) (hv : v.IsSuffixWildcard)
    (text : List Char) :
    (w ≠ v → w.covers text = true → v.covers text = true →
      w.byteLength ≠ v.byteLength ∧
        (w.byteLength < v.byteLength → w.covers v = true) ∧
        (v.byteLength < w.byteLength → v.covers w = true)) ∧
    (w.covers v = true → v.covers text = true → w.covers text = true) := by
  refine ⟨fun hne hwt hvt => ?_, covers_trans hw hv⟩
  rcases covers_nested hw hv hne hwt hvt with ⟨hlt, hcovers⟩ | ⟨hlt, hcovers⟩
  · exact ⟨Nat.ne_of_lt hlt, fun _ => hcovers, fun h => absurd h (Nat.lt_asymm hlt)⟩
  · exact ⟨Nat.ne_of_gt hlt, fun h => absurd h (Nat.lt_asymm hlt), fun _ => hcovers⟩

end Path

end

/-- Both cover the text before the last slash, the longer one with nothing for its tail. -/
theorem Path.suffix_wildcards_nested_slash :
    IsSuffixWildcard "/é*".toList ∧ IsSuffixWildcard "/é/b/*".toList ∧
      covers "/é*".toList "/é/b".toList = true ∧ covers "/é/b/*".toList "/é/b".toList = true ∧
      byteLength "/é*".toList < byteLength "/é/b/*".toList ∧
      covers "/é*".toList "/é/b/*".toList = true ∧
      covers "/é/b/*".toList "/é/b/*/c".toList = true ∧
      covers "/é*".toList "/é/b/*/c".toList = true := by
  have hw : IsSuffixWildcard "/é*".toList := ⟨by decide, by decide⟩
  have hv : IsSuffixWildcard "/é/b/*".toList := ⟨by decide, by decide⟩
  have hlt : byteLength "/é*".toList < byteLength "/é/b/*".toList := by decide
  have hwt : covers "/é*".toList "/é/b".toList = true := by cbv
  have hvt : covers "/é/b/*".toList "/é/b".toList = true := by cbv
  have hvt' : covers "/é/b/*".toList "/é/b/*/c".toList = true := by cbv
  obtain ⟨-, hshorter, -⟩ := (suffix_wildcards_nested hw hv _).1 (by decide) hwt hvt
  have hwv := hshorter hlt
  exact ⟨hw, hv, hwt, hvt, hlt, hwv, hvt', (suffix_wildcards_nested hw hv _).2 hwv hvt'⟩

end PathRouter
