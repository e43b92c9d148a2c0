import PathRouter.Builder

/-!
Registration of routes and of middleware. A new path starts with the chain of the closest middleware
that covers it; a new wildcard is appended to every chain that it covers. So a handler reaches the
paths its wildcard covers whichever was registered first.
-/

namespace PathRouter

namespace MethodTables

def attach (wildcard : Wildcard) (id : HandlerId) (tables : MethodTables) : MethodTables :=
  let extend (key : Path) (chain : Chain) : Chain :=
    if wildcard.covers key then chain ++ [id] else chain
  { middleware := tables.middleware.update extend, routes := tables.routes.update extend }

def coverage (wildcard : Wildcard) (tables : MethodTables) : Nat :=
  (tables.middleware.keys ++ tables.routes.keys).countP wildcard.covers

end MethodTables

/-- A change of a builder that may fail. A failed change keeps what it did before it failed. -/
abbrev Registration (α : Type) := EStateM RouterError (Builder α)

namespace Builder

variable {α : Type} [SizeRule]

def withCache {β : Type} (action : EStateM RouterError WildcardCache β) : Registration α β :=
  fun builder =>
    match action.run builder.wildcards with
    | .ok result wildcards => .ok result { builder with wildcards }
    | .error e wildcards => .error e { builder with wildcards }

def store (handler : α) : Registration α HandlerId :=
  modifyGet fun builder =>
    (builder.handlers.size, { builder with handlers := builder.handlers.push handler })

/-- Makes a method known. -/
def note (method : Method) : Registration α Unit :=
  modify fun builder =>
    if builder.methods.contains method then builder
    else { builder with methods := builder.methods ++ [method] }

/-- Gives a method its own tables, as copies of those for all methods. -/
def specialize (method : Method) : Registration α Log :=
  modifyGet fun builder =>
    if builder.tables.contains method then ([], builder)
    else
      let copies := (builder.tables.get? allMethods).getD {}
      ([.specialized method copies.routes.size copies.middleware.size],
        { builder with tables := builder.tables.set method copies })

/-- The methods whose tables a registration under `method` changes, in the order of their names. -/
def targets (builder : Builder α) (method : Method) : List Method :=
  (builder.tables.keys.filter fun m => decide (method = allMethods ∨ m = method)).mergeSort
    fun a b => decide (a ≤ b)

def coveringChain (method : Method) (path : Path) : Registration α (Option Chain) := do
  match (← get).tables.get? method with
  | some tables => withCache (WildcardCache.findMiddleware tables.middleware path)
  | none => pure none

/-- The chain that a new path of `method` starts with: that of the closest covering middleware of
the method, else of all methods, else none. -/
def inheritedChain (method : Method) (path : Path) : Registration α Chain := do
  match ← coveringChain method path with
  | some chain => pure chain
  | none =>
    match ← coveringChain allMethods path with
    | some chain => pure chain
    | none => pure []

def modifyTables (method : Method) (f : MethodTables → MethodTables) : Registration α Unit :=
  modify fun builder => { builder with tables := builder.tables.modify method f }

/-- Lists a path in a table of a method, with the chain it inherits, unless it is listed there. -/
def seed (kind : TableKind) (path : Path) (method : Method) : Registration α Unit := do
  let known := ((← get).tables.get? method).any fun tables => (tables.table kind).contains path
  if !known then
    let chain ← inheritedChain method path
    modifyTables method (·.modifyTable kind (·.set path chain))

def propagate (path : Path) (wildcard : Wildcard) (id : HandlerId) (method : Method) :
    Registration α Event := do
  let attached := ((← get).tables.get? method).elim 0 (·.coverage wildcard)
  modifyTables method (·.attach wildcard id)
  return .propagated method path attached

/-- Registers a wildcard with the given methods. All of them list the path before the first one gets
the handler, so no chain that is copied holds it yet. -/
def addMiddleware (methods : List Method) (path : Path) (wildcard : Wildcard) (id : HandlerId) :
    Registration α Log := do
  methods.forM (seed .middleware path)
  methods.mapM (propagate path wildcard id)

def addRoute (path : Path) (id : HandlerId) (method : Method) : Registration α Unit := do
  seed .routes path method
  modifyTables method (·.modifyTable .routes (·.modify path (· ++ [id])))

/-- Registers a stored handler with the given methods, in their order: as middleware, if there is a
wildcard, and else as a route, at every path that the given one stands for. -/
def register (methods : List Method) (path : Path) (wildcard : Option Wildcard) (id : HandlerId) :
    Registration α Log := do
  match wildcard with
  | some wildcard => addMiddleware methods path wildcard id
  | none =>
    ((← get).expander.paths path).forM fun p => methods.forM (addRoute p id)
    return []

/-- Registers a handler for a method, or for all of them, and a path. A path that ends in a star
registers middleware; any other path is expanded, and registers routes. Methods that are not known
yet are accepted. -/
def add (method : Method) (path : Path) (handler : α) : Registration α Log := do
  let path := path.canonical
  let wildcard ←
    if path.isWildcard then some <$> withCache (WildcardCache.wildcard path) else pure none
  let id ← store handler
  note method
  let specialized ← specialize method
  let propagated ← register ((← get).targets method) path wildcard id
  return specialized ++ propagated

def ofRoutes (routes : List (Method × Path × α)) : Except RouterError (Builder α) :=
  match (routes.forM fun (method, path, handler) => discard (add method path handler)).run {} with
  | .ok _ builder => .ok builder
  | .error e _ => .error e

end Builder

end PathRouter
