import Mathlib.Data.List.Basic
import Mathlib.Tactic.Common
import PathRouter.Trie.Key

/-!
Tokens and the text they are read from. The tokens of a path spell the path, so the keys along a
path tell its text as far as they are literals; and a stretch without colons and stars is read
character by character, whatever follows.
-/

namespace PathRouter

namespace Path

theorem flatMap_spelling_tokenize (path : Path) :
    path.tokenize.flatMap Token.spelling = path := by
  induction path using Path.tokenize.induct with
  | case1 =>
      rw [tokenize]
      rfl
  | case2 c rest h ih =>
      rw [tokenize, if_pos h, List.flatMap_cons, ih, Token.spelling, List.cons_append,
        leadingName_append_afterName, h.1]
  | case3 c rest h htail =>
      rw [tokenize, if_neg h, if_pos htail, htail.1, htail.2]
      rfl
  | case4 c rest h htail ih =>
      rw [tokenize, if_neg h, if_neg htail, List.flatMap_cons, ih]
      split
      · next hstar =>
          rw [hstar]
          rfl
      · rfl

theorem tokenize_cons_of_plain {c : Char} {rest : Path} (hcolon : c ≠ ':') (hstar : c ≠ '*')
    (htail : c = '/' → rest ≠ ['*']) : tokenize (c :: rest) = .char c :: tokenize rest := by
  rw [tokenize, if_neg fun h => hcolon h.1, if_neg fun h => htail h.1 h.2, if_neg hstar]

/-- A stretch without colons and stars is read by itself, unless its slash meets a last star. -/
theorem tokenize_append {front back : Path} (hcolon : ':' ∉ front) (hstar : '*' ∉ front)
    (hmeet : back = ['*'] → front.getLast? ≠ some '/') :
    tokenize (front ++ back) = front.map .char ++ tokenize back := by
  induction front with
  | nil => rfl
  | cons c front ih =>
      rw [List.mem_cons, not_or] at hcolon hstar
      have hrest : back = ['*'] → front.getLast? ≠ some '/' := by
        intro hback hlast
        refine hmeet hback ?_
        rw [List.getLast?_cons, hlast]
        rfl
      rw [List.cons_append, tokenize_cons_of_plain (Ne.symm hcolon.1) (Ne.symm hstar.1),
        ih hcolon.2 hstar.2 hrest]
      · rfl
      · rintro rfl happend
        -- the slash would be the last character in front of a star that is all of the rest
        cases front with
        | nil => exact hmeet happend rfl
        | cons d front =>
            rw [List.cons_append] at happend
            exact hstar.2 ((List.cons.inj happend).1 ▸ List.mem_cons_self)

end Path

/-- What comes before the first slash, or before the end, is told by the text. -/
theorem takeWhile_append_of_slash_or_end {piece rest : List Char} (h : '/' ∉ piece)
    (hrest : rest = [] ∨ ∃ after, rest = '/' :: after) :
    (piece ++ rest).takeWhile (· ≠ '/') = piece := by
  have hpiece : ∀ c ∈ piece, decide (c ≠ '/') = true := by
    intro c hc
    rw [decide_eq_true_eq]
    rintro rfl
    exact h hc
  rw [List.takeWhile_append_of_pos hpiece]
  rcases hrest with rfl | ⟨after, rfl⟩
  · rw [List.takeWhile_nil, List.append_nil]
  · rw [List.takeWhile_cons_of_neg (by decide), List.append_nil]

theorem map_key_stepsOf_append (text : Path) (tokens : List Token) :
    (stepsOf (text.map .char ++ tokens)).map Step.key =
      text.map .literal ++ (stepsOf tokens).map Step.key := by
  induction text with
  | nil => rfl
  | cons c text ih =>
      rw [List.map_cons, List.cons_append, stepsOf, List.map_cons, ih]
      rfl

theorem Path.keys_append {front back : Path} (hcolon : ':' ∉ front) (hstar : '*' ∉ front)
    (hmeet : back = ['*'] → front.getLast? ≠ some '/') :
    (front ++ back).keys = front.map .literal ++ back.keys := by
  unfold keys steps
  rw [tokenize_append hcolon hstar hmeet, map_key_stepsOf_append]

theorem eq_append_of_keys {tokens : List Token} {text : Path} {keys : List Key}
    (h : (stepsOf tokens).map Step.key = text.map .literal ++ keys) :
    ∃ rest, tokens = text.map .char ++ rest ∧ (stepsOf rest).map Step.key = keys := by
  induction text generalizing tokens with
  | nil => exact ⟨tokens, rfl, h⟩
  | cons c text ih =>
      cases tokens with
      | nil => cases h
      | cons token tokens =>
          rw [stepsOf, List.map_cons, List.map_cons, List.cons_append, List.cons.injEq] at h
          obtain ⟨hkey, hrest⟩ := h
          obtain ⟨rest, rfl, hkeys⟩ := ih hrest
          refine ⟨rest, ?_, hkeys⟩
          cases token with
          | char d =>
              cases hkey
              rfl
          | param name => cases hkey
          | star =>
              simp only [Token.step] at hkey
              split at hkey <;> cases hkey
          | tailStar => cases hkey

theorem flatMap_spelling_chars (text : Path) :
    (text.map Token.char).flatMap Token.spelling = text := by
  induction text with
  | nil => rfl
  | cons c text ih =>
      rw [List.map_cons, List.flatMap_cons, ih]
      rfl

theorem Path.eq_append_of_keys {path text : Path} {keys : List Key}
    (h : path.keys = text.map .literal ++ keys) :
    ∃ rest, path = text ++ rest.flatMap Token.spelling ∧ (stepsOf rest).map Step.key = keys := by
  obtain ⟨rest, htokens, hkeys⟩ := PathRouter.eq_append_of_keys h
  refine ⟨rest, ?_, hkeys⟩
  rw [← path.flatMap_spelling_tokenize, htokens, List.flatMap_append, flatMap_spelling_chars]

end PathRouter
