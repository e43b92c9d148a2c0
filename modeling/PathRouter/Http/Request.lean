import PathRouter.Http.Method
import PathRouter.Http.Target

/-! The part of a request that routing looks at. -/

namespace PathRouter.Http

structure Request where
  method : Method
  path : Path
  deriving DecidableEq, Repr

/-- Reads a method and a target; a fault of the method is reported first. -/
def Request.read (method target : List Char) : Except RequestError Request := do
  let method ← readMethod method
  let path ← readTarget target
  return { method, path }

end PathRouter.Http
