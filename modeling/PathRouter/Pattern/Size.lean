import PathRouter.Pattern.Limits

/-!
The size rule that the program runs with, an estimate at eight bytes a state.
-/

namespace PathRouter

namespace Pattern

/-- There is one state for each anchor, branch, group end and byte of a character, and forty-four
for a repeated class, which has to tell the bytes of all encoded characters apart. -/
def programSize : Pattern → Nat
  | .empty => 0
  | .start | .stop => 8
  | .char c => 8 * c.utf8Size
  | .segment | .anyRun => 8 * 44
  | .seq p q => p.programSize + q.programSize
  | .alt p q => 8 + p.programSize + q.programSize
  | .group p => p.programSize
  | .capture _ p => 16 + p.programSize

end Pattern

instance SizeRule.estimate : SizeRule where
  size := Pattern.programSize

end PathRouter
