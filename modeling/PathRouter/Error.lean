import PathRouter.Path
import PathRouter.Pattern.Limits
import PathRouter.Text.Quoted

/-! What can go wrong while routes are registered and compiled. -/

namespace PathRouter

inductive RouterError
  /-- The path conflicts with another one of its method. -/
  | unsupportedPath (path : Path)
  /-- The router is frozen, and takes no more routes. -/
  | alreadyFrozen
  /-- A pattern exceeds a limit. -/
  | pattern (cause : PatternError)
  deriving DecidableEq, Repr

def RouterError.message : RouterError → String
  | .unsupportedPath path => "unsupported path: " ++ Text.quoted path
  | .alreadyFrozen => "can not add a route since the matcher is already built"
  | .pattern cause => cause.message

end PathRouter
