import PathRouter.Pattern

/-!
The text of a pattern, in the usual syntax of regular expressions. Characters with a meaning of
their own in that syntax are written after a backslash.
-/

namespace PathRouter

namespace Pattern

/-- The characters that are written after a backslash. -/
def special : List Char :=
  ['\\', '.', '+', '*', '?', '(', ')', '|', '[', ']', '\x7b', '\x7d', '^', '$', '#', '&', '-', '~']

def escape (c : Char) : List Char := if c ∈ special then ['\\', c] else [c]

/-- The text of a pattern. Precedence is the writer's concern: an alternation inside a sequence has
to stand in a group. -/
def text : Pattern → List Char
  | .empty => []
  | .start => ['^']
  | .stop => ['$']
  | .char c => escape c
  | .segment => ['[', '^', '/', ']', '+']
  | .anyRun => ['.', '*']
  | .seq p q => p.text ++ q.text
  | .alt p q => p.text ++ '|' :: q.text
  | .group p => '(' :: '?' :: ':' :: (p.text ++ [')'])
  | .capture _ p => '(' :: (p.text ++ [')'])

end Pattern

end PathRouter
