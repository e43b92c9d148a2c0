import Mathlib.Data.List.Basic
import PathRouter.Params
import PathRouter.Path.Token

/-!
What a registered path stands for on its own. Its tokens read a text piece by piece: a character
reads itself, a parameter and a star inside the path read a stretch of one segment, and the stars at
the end read the rest. Nothing here knows of tries or of other paths.
-/

namespace PathRouter

/-- The pieces of text that a token may read; a star reads more at the end of a path. -/
def Token.Reads (token : Token) (atEnd : Bool) (piece : List Char) : Prop :=
  match token with
  | .char c => piece = [c]
  | .param _ => piece ≠ [] ∧ '/' ∉ piece
  | .star => if atEnd then '\n' ∉ piece else piece ≠ [] ∧ '/' ∉ piece
  | .tailStar => piece = [] ∨ ∃ rest, piece = '/' :: rest ∧ '\n' ∉ rest

def Reading : List Token → List (List Char) → Prop
  | [], [] => True
  | token :: tokens, piece :: pieces => token.Reads tokens.isEmpty piece ∧ Reading tokens pieces
  | _, _ => False

namespace Path

/-- The path matches a whole text, taken on its own. -/
def Matches (path : Path) (text : List Char) : Prop :=
  ∃ pieces, Reading path.tokenize pieces ∧ pieces.flatten = text

end Path

def paramNames : List Token → List (List Char)
  | [] => []
  | .param name :: tokens => name :: paramNames tokens
  | _ :: tokens => paramNames tokens

def boundBy : List Token → List (List Char) → Params
  | .param name :: tokens, piece :: pieces => (name, piece) :: boundBy tokens pieces
  | _ :: tokens, _ :: pieces => boundBy tokens pieces
  | _, _ => []

/-- A reading binds every parameter once, in order. -/
theorem map_fst_boundBy {tokens : List Token} {pieces : List (List Char)}
    (h : Reading tokens pieces) : (boundBy tokens pieces).map Prod.fst = paramNames tokens := by
  induction tokens generalizing pieces with
  | nil => cases pieces <;> rfl
  | cons token tokens ih =>
      cases pieces with
      | nil => exact h.elim
      | cons piece pieces =>
          cases token with
          | param name => rw [boundBy, paramNames, List.map_cons, ih h.2]
          | char c => exact ih h.2
          | star => exact ih h.2
          | tailStar => exact ih h.2

theorem value_boundBy {tokens : List Token} {pieces : List (List Char)}
    (h : Reading tokens pieces) {pair : List Char × List Char}
    (hpair : pair ∈ boundBy tokens pieces) : pair.2 ≠ [] ∧ '/' ∉ pair.2 := by
  induction tokens generalizing pieces with
  | nil => cases pieces <;> simp [boundBy] at hpair
  | cons token tokens ih =>
      cases pieces with
      | nil => exact h.elim
      | cons piece pieces =>
          cases token with
          | param name =>
              rw [boundBy, List.mem_cons] at hpair
              rcases hpair with rfl | hpair
              · exact h.1
              · exact ih h.2 hpair
          | char c => exact ih h.2 hpair
          | star => exact ih h.2 hpair
          | tailStar => exact ih h.2 hpair

end PathRouter
