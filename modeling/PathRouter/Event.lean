import PathRouter.Path

/-! What a router reports while it is built, compiled and asked. -/

namespace PathRouter

abbrev Method := String

inductive Event
  /-- A method got its own tables, as copies of this many routes and middleware paths. -/
  | specialized (method : Method) (routes middleware : Nat)
  /-- A wildcard's handler was appended to the chains of `attached` paths of a method. -/
  | propagated (method : Method) (path : Path) (attached : Nat)
  /-- The matcher of a method is about to be built. -/
  | buildingMatcher (method : Method) (entries : Nat)
  /-- A matcher was built; `groups` is the highest ordinal of a route's group. -/
  | compiledMatcher (entries statics dynamic groups : Nat)
  /-- The router was frozen; `specialized` methods have a matcher of their own. -/
  | routerFrozen (methods specialized handlers : Nat)
  /-- A path was looked up before the router was frozen. -/
  | notFrozen (method : Method) (path : Path)
  deriving DecidableEq, Repr

abbrev Log := List Event

inductive Level
  | trace
  | debug
  | info
  | warn
  deriving DecidableEq, Repr

def Level.name : Level → String
  | .trace => "TRACE"
  | .debug => "DEBUG"
  | .info => "INFO"
  | .warn => "WARN"

namespace Event

def level : Event → Level
  | .specialized .. | .propagated .. => .trace
  | .buildingMatcher .. | .compiledMatcher .. => .debug
  | .routerFrozen .. => .info
  | .notFrozen .. => .warn

def message : Event → String
  | .specialized .. => "specialized method tables"
  | .propagated .. => "propagated wildcard"
  | .buildingMatcher .. => "building matcher"
  | .compiledMatcher .. => "compiled matcher"
  | .routerFrozen .. => "router frozen"
  | .notFrozen .. => "lookup on a router that is not frozen"

end Event

end PathRouter
