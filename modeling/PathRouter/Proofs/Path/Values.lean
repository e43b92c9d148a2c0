import PathRouter.Proofs.Path.Keys
import PathRouter.Proofs.Trie.Fits

/-!
Paths with values in place of their parameters. Where every key stops before the next one, a text
falls into pieces in one way only, so the values can be read back from the text alone.
-/

namespace PathRouter

def piecesWith : List Token → List (List Char) → List (List Char)
  | [], _ => []
  | .param _ :: tokens, value :: values => value :: piecesWith tokens values
  | token :: tokens, values => token.spelling :: piecesWith tokens values

/-- The text of a path with the values in place of its parameters, in their order. -/
def Path.withValues (path : Path) (values : List (List Char)) : List Char :=
  (piecesWith path.tokenize values).flatten

example : Path.withValues "/a:x/:y".toList [['1'], ['2']] = "/a1/2".toList := by
  decide +kernel

/-! ### Reading with values -/

theorem Path.ne_star_of_mem_tokenize {path : Path} (h : '*' ∉ path) {token : Token}
    (hmem : token ∈ path.tokenize) : token ≠ .star ∧ token ≠ .tailStar := by
  have hspelling (hstar : '*' ∈ token.spelling) : False := by
    apply h
    rw [← path.flatMap_spelling_tokenize]
    exact List.mem_flatMap.2 ⟨token, hmem, hstar⟩
  constructor
  · rintro rfl
    exact hspelling (by decide)
  · rintro rfl
    exact hspelling (by decide)

theorem Path.starsFillSegments_of_notMem {path : Path} (h : '*' ∉ path) :
    path.StarsFillSegments := by
  rw [StarsFillSegments, List.isChain_iff_getElem]
  intro i hi hstar
  exact absurd hstar (ne_star_of_mem_tokenize h (List.getElem_mem _)).1

variable {tokens : List Token} {values : List (List Char)}

/-- Tokens without stars read their pieces, if the values are stretches of one segment. -/
theorem reading_piecesWith (hstars : ∀ token ∈ tokens, token ≠ .star ∧ token ≠ .tailStar)
    (hlength : values.length = (paramNames tokens).length)
    (hvalues : ∀ value ∈ values, value ≠ [] ∧ '/' ∉ value) :
    Reading tokens (piecesWith tokens values) := by
  induction tokens generalizing values with
  | nil => exact trivial
  | cons token tokens ih =>
      have hrest : ∀ token ∈ tokens, token ≠ .star ∧ token ≠ .tailStar := fun token htoken =>
        hstars token (List.mem_cons_of_mem _ htoken)
      cases token with
      | char c => exact ⟨rfl, ih hrest hlength hvalues⟩
      | param name =>
          cases values with
          | nil => cases hlength
          | cons value values =>
              rw [List.forall_mem_cons] at hvalues
              exact ⟨hvalues.1, ih hrest (Nat.succ.inj hlength) hvalues.2⟩
      | star => exact absurd rfl (hstars _ List.mem_cons_self).1
      | tailStar => exact absurd rfl (hstars _ List.mem_cons_self).2

theorem boundBy_piecesWith (hlength : values.length = (paramNames tokens).length) :
    boundBy tokens (piecesWith tokens values) = (paramNames tokens).zip values := by
  induction tokens generalizing values with
  | nil => rfl
  | cons token tokens ih =>
      cases token with
      | param name =>
          cases values with
          | nil => cases hlength
          | cons value values =>
              rw [piecesWith, boundBy, paramNames, List.zip_cons_cons, ih (Nat.succ.inj hlength)]
      | char c => exact ih hlength
      | star => exact ih hlength
      | tailStar => exact ih hlength

/-! ### The pieces of a text -/

namespace Key

variable {key : Key} {keys : List Key} {pieces pieces' : List (List Char)}

theorem slash_or_end_of_stopsBefore (hstops : (label :: keys).IsChain StopsBefore)
    (h : List.Forall₂ Reads keys pieces) :
    pieces.flatten = [] ∨ ∃ after, pieces.flatten = '/' :: after := by
  cases h with
  | nil => exact Or.inl rfl
  | @cons next piece rest pieces hnext hrest =>
      rw [List.isChain_cons_cons] at hstops
      rcases hstops.1.2 rfl with rfl | rfl
      · rw [show piece = ['/'] from hnext]
        exact Or.inr ⟨_, rfl⟩
      · -- a tail is the last key, and reads nothing or a slash first
        obtain rfl := (wildcardLast_of_stopsBefore hstops.2).eq_nil rfl
        cases hrest
        rcases hnext with rfl | ⟨after, rfl, -⟩
        · exact Or.inl rfl
        · exact Or.inr ⟨_, rfl⟩

/-- A text falls into pieces in one way, if every key stops before the next one. -/
theorem pieces_unique (hstops : keys.IsChain StopsBefore) (h : List.Forall₂ Reads keys pieces)
    (h' : List.Forall₂ Reads keys pieces') (hflat : pieces.flatten = pieces'.flatten) :
    pieces = pieces' := by
  induction h generalizing pieces' with
  | nil =>
      cases h'
      rfl
  | @cons key piece keys pieces hpiece hrest ih =>
      obtain ⟨piece', rest', hpiece', hrest', rfl⟩ := List.forall₂_cons_left_iff.1 h'
      rw [List.flatten_cons, List.flatten_cons] at hflat
      have hsame : piece = piece' := by
        cases key with
        | literal c => exact hpiece.trans hpiece'.symm
        | label =>
            rw [← takeWhile_append_of_slash_or_end hpiece.2
                (slash_or_end_of_stopsBefore hstops hrest), hflat,
              takeWhile_append_of_slash_or_end hpiece'.2
                (slash_or_end_of_stopsBefore hstops hrest')]
        | tailWildcard | onlyWildcard =>
            obtain rfl := (wildcardLast_of_stopsBefore hstops).eq_nil rfl
            cases hrest
            cases hrest'
            simpa using hflat
      rw [hsame, List.append_cancel_left_eq] at hflat
      rw [hsame, ih hstops.tail hrest' hflat]

end Key

/-- The values of a text are the only ones that a path without stars reads there. -/
theorem Path.boundBy_withValues {path : Path} (hstar : '*' ∉ path)
    (hlength : values.length = (paramNames path.tokenize).length)
    (hvalues : ∀ value ∈ values, value ≠ [] ∧ '/' ∉ value) {pieces : List (List Char)}
    (h : Reading path.tokenize pieces) (hflat : pieces.flatten = path.withValues values) :
    boundBy path.tokenize pieces = (paramNames path.tokenize).zip values := by
  have hreading := reading_piecesWith (fun _ => ne_star_of_mem_tokenize hstar) hlength hvalues
  rw [Key.pieces_unique (starsFillSegments_of_notMem hstar).isChain_keys
    (reading_iff_forall₂.1 h) (reading_iff_forall₂.1 hreading) hflat, boundBy_piecesWith hlength]

theorem Path.matches_withValues {path : Path} (hstar : '*' ∉ path)
    (hlength : values.length = (paramNames path.tokenize).length)
    (hvalues : ∀ value ∈ values, value ≠ [] ∧ '/' ∉ value) :
    path.Matches (path.withValues values) :=
  ⟨_, reading_piecesWith (fun _ => ne_star_of_mem_tokenize hstar) hlength hvalues, rfl⟩

end PathRouter
