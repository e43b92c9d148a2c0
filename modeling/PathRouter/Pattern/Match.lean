import PathRouter.Pattern
import PathRouter.Pattern.Row

/-!
Leftmost-first matching. A pattern is run against all positions of the text at once, from right to
left through the pattern: the row of a continuation holds, for each position, what a match that has
come this far yields from there, and `run` turns it into the row of the pattern followed by that
continuation. Each part of the pattern is visited once, so the work is the size of the pattern
times the length of the text, and preference between alternatives is just `<|>`.
-/

namespace PathRouter

inductive Mark
  | opened (ordinal position : Nat)
  | closed (ordinal position : Nat)
  deriving DecidableEq, Repr

namespace Pattern

def inSegment (c : Char) : Bool := c != '/'

def inLine (c : Char) : Bool := c != '\n'

/-- The row of the pattern followed by a continuation. -/
def run : Pattern → List Char → Row (List Mark) → Row (List Mark)
  | .empty, _, row => row
  | .start, _, row => Row.atStart row
  | .stop, _, row => Row.atStop row
  | .char c, text, row => Row.readOne (· == c) text row
  | .segment, text, row => Row.readOne inSegment text (Row.readMany inSegment text row)
  | .anyRun, text, row => Row.readMany inLine text row
  | .seq p q, text, row => p.run text (q.run text row)
  | .alt p q, text, row => Row.orElse (p.run text row) (q.run text row)
  | .group p, text, row => p.run text row
  | .capture n p, text, row =>
    Row.mapAt (fun i marks => .opened n i :: marks)
      (p.run text (Row.mapAt (fun i marks => .closed n i :: marks) row))

end Pattern

/-- A match: the text and the ends of the groups that took part, in the order of the text. -/
structure Captures where
  text : List Char
  marks : List Mark
  deriving DecidableEq, Repr

namespace Captures

def span? (captures : Captures) (n : Nat) : Option (Nat × Nat) := do
  let first ← captures.marks.findSome? fun
    | .opened m i => if m = n then some i else none
    | .closed _ _ => none
  let last ← captures.marks.findSome? fun
    | .closed m i => if m = n then some i else none
    | .opened _ _ => none
  return (first, last)

def participates (captures : Captures) (n : Nat) : Bool := (captures.span? n).isSome

def text? (captures : Captures) (n : Nat) : Option (List Char) :=
  (captures.span? n).map fun span => (captures.text.drop span.1).take (span.2 - span.1)

end Captures

namespace Pattern

/-- The leftmost match of the pattern in the text; of those that start there, the one preferred by
the order of alternatives and the greed of runs. -/
def search (p : Pattern) (text : List Char) : Option Captures :=
  ((p.run text (List.replicate (text.length + 1) (some []))).findSome? id).map (⟨text, ·⟩)

def isMatch (p : Pattern) (text : List Char) : Bool := (p.search text).isSome

end Pattern

end PathRouter
