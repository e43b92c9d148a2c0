import PathRouter.OrderedMap
import PathRouter.Path

/-! The handler chains of one method, by path. -/

namespace PathRouter

/-- The position of a handler in the store of its router. -/
abbrev HandlerId := Nat

/-- Handlers in the order in which they are to run. -/
abbrev Chain := List HandlerId

abbrev RouteTable := OrderedMap Path Chain

end PathRouter
