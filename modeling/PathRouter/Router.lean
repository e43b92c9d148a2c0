import PathRouter.Builder.Freeze
import PathRouter.Builder.Registration

/-!
A router that moves from building to frozen while the program runs, for callers that keep one place
for both phases.
-/

namespace PathRouter

inductive Router (α : Type)
  | building (builder : Builder α)
  | frozen (router : FrozenRouter α)

namespace Router

variable {α : Type} [SizeRule]

def new : Router α := .building {}

def add (method : Method) (path : Path) (handler : α) : EStateM RouterError (Router α) Log :=
  fun router =>
    match router with
    | .building builder =>
      match (Builder.add method path handler).run builder with
      | .ok log builder => .ok log (.building builder)
      | .error e builder => .error e (.building builder)
    | .frozen inner => .error .alreadyFrozen (.frozen inner)

/-- An action that only reports, beside a router. -/
def reporting {β : Type} (action : EStateM RouterError Log β) :
    EStateM RouterError (Router α × Log) β :=
  fun (router, log) =>
    match action.run log with
    | .ok result log => .ok result (router, log)
    | .error e log => .error e (router, log)

/-- Freezes the router in its place: the handlers are taken out of the builder once the matchers are
compiled, and then the frozen router takes the place of what is left. A router that fails to compile
is still the one that is building; a frozen one can not be frozen again. -/
def freeze : EStateM RouterError (Router α × Log) Unit := do
  match (← get).1 with
  | .frozen _ => throw .alreadyFrozen
  | .building builder =>
    let (matchers, fallback) ← reporting builder.compile
    let (handlers, rest) := builder.takeHandlers
    modify fun (_, log) => (.building rest, log)
    modify fun (_, log) => (.frozen { handlers, matchers, fallback }, log)

def asFrozen? : Router α → Option (FrozenRouter α)
  | .building _ => none
  | .frozen router => some router

def isFrozen (router : Router α) : Bool := router.asFrozen?.isSome

def find (router : Router α) (method : Method) (path : Path) : Option (Match α) :=
  router.asFrozen?.bind (·.find method path)

def findLog (router : Router α) (method : Method) (path : Path) : Log :=
  match router with
  | .building _ => [.notFrozen method path]
  | .frozen _ => []

end Router

end PathRouter
