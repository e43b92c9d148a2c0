import PathRouter.Path

/-!
The tokens of a path: characters, named parameters and stars. `tokenize` reads a path, and
`Token.spelling` gives the characters a token stands for.
-/

namespace PathRouter

inductive Token
  /-- A character that stands for itself. -/
  | char (c : Char)
  /-- A parameter, written as a colon and its name. -/
  | param (name : List Char)
  /-- A star. -/
  | star
  /-- A slash and a star, at the very end of the path. -/
  | tailStar
  deriving DecidableEq, Repr

def Token.spelling : Token → List Char
  | .char c => [c]
  | .param name => ':' :: name
  | .star => ['*']
  | .tailStar => ['/', '*']

/-- The parameter name at the front of a path: all that comes before the next slash. -/
def Path.leadingName (path : Path) : List Char := path.takeWhile (· ≠ '/')

def Path.afterName (path : Path) : Path := path.dropWhile (· ≠ '/')

theorem Path.length_afterName_le (path : Path) : path.afterName.length ≤ path.length :=
  (List.dropWhile_sublist _).length_le

/-- Reads a path into tokens. A colon with at least one character before the next slash opens a
parameter, whatever stands before it; `/*` counts as one token only when nothing follows it. -/
def Path.tokenize : Path → List Token
  | [] => []
  | c :: rest =>
    if c = ':' ∧ Path.leadingName rest ≠ [] then
      .param (Path.leadingName rest) :: Path.tokenize (Path.afterName rest)
    else if c = '/' ∧ rest = ['*'] then [.tailStar]
    else (if c = '*' then .star else .char c) :: Path.tokenize rest
termination_by path => path.length
decreasing_by
  · have := Path.length_afterName_le rest
    simp only [List.length_cons]
    omega
  · simp

example : Path.tokenize "/a/:id/*".toList =
    [.char '/', .char 'a', .char '/', .param ['i', 'd'], .tailStar] := by
  decide +kernel

example : Path.tokenize "/:/b*".toList =
    [.char '/', .char ':', .char '/', .char 'b', .star] := by
  decide +kernel

theorem Path.leadingName_append_afterName (path : Path) :
    path.leadingName ++ path.afterName = path :=
  List.takeWhile_append_dropWhile

end PathRouter
