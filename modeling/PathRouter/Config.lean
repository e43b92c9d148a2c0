/-! The limits that every compiled pattern has to keep. -/

namespace PathRouter

/-- Compile limits. Each method's routes become one pattern, so a large set of routes can exceed
the default limits. -/
structure Config where
  /-- An upper bound, in bytes, on the estimated size of one compiled pattern. -/
  sizeLimit : Nat := 10 * (1 <<< 20)
  /-- The greatest nesting depth of one pattern. -/
  nestLimit : Nat := 250
  deriving DecidableEq, Repr

end PathRouter
