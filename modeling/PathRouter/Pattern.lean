/-!
The patterns that paths compile to: the part of regular expressions that routing needs. Sequences
and alternations are binary and nest to the right when built by `concat` and `choice`.
-/

namespace PathRouter

inductive Pattern
  /-- Nothing. -/
  | empty
  /-- The start of the whole text. -/
  | start
  /-- The end of the whole text. -/
  | stop
  /-- One given character. -/
  | char (c : Char)
  /-- One or more characters other than a slash, as many as possible. -/
  | segment
  /-- Any number of characters other than a line feed, as many as possible. -/
  | anyRun
  | seq (first second : Pattern)
  /-- Either pattern; the first is preferred. -/
  | alt (first second : Pattern)
  /-- A group that only brackets. -/
  | group (inner : Pattern)
  /-- A capturing group with its ordinal. Ordinals count from one, in the order of the text. -/
  | capture (ordinal : Nat) (inner : Pattern)
  deriving DecidableEq, Repr

namespace Pattern

def concat : List Pattern → Pattern
  | [] => .empty
  | [p] => p
  | p :: ps => .seq p (concat ps)

/-- The patterns as alternatives, the first one preferred. -/
def choice : List Pattern → Pattern
  | [] => .empty
  | [p] => p
  | p :: ps => .alt p (choice ps)

/-- A wildcard tail: nothing, or a slash and anything after it. -/
def tail : Pattern := .group (.alt .empty (.seq (.char '/') .anyRun))

end Pattern

end PathRouter
