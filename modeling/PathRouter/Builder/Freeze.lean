import PathRouter.Builder
import PathRouter.FrozenRouter

/-!
Compilation of the tables of a builder into matchers, one for each known method. Methods without
registrations of their own share the matcher for all methods.
-/

namespace PathRouter

namespace Builder

variable {α : Type} [SizeRule]

/-- A table of a method's own, if there is one and it is not empty. -/
def ownTable? (builder : Builder α) (method : Method) (kind : TableKind) : Option RouteTable :=
  ((builder.tables.get? method).map (·.table kind)).filter (!·.isEmpty)

/-- The entries that a method takes from one kind of table: from its own one, or else from the one
for all methods. -/
def tableEntries (builder : Builder α) (method : Method) (kind : TableKind) : List Entry :=
  match builder.ownTable? method kind with
  | some own => own.entries
  | none => (builder.tables.get? allMethods).elim [] fun tables => (tables.table kind).entries

/-- All entries of a method, middleware first. -/
def entriesOf (builder : Builder α) (method : Method) : List Entry :=
  builder.tableEntries method .middleware ++ builder.tableEntries method .routes

def hasOwnMatcher (builder : Builder α) (method : Method) : Bool :=
  decide (method = allMethods) || (builder.ownTable? method .middleware).isSome
    || (builder.ownTable? method .routes).isSome

def emit (event : Event) : EStateM RouterError Log Unit := modify (· ++ [event])

def matcherFor (builder : Builder α) (method : Method) :
    EStateM RouterError Log (Option Matcher) := do
  if !builder.hasOwnMatcher method then return none
  let entries := builder.entriesOf method
  emit (.buildingMatcher method entries.length)
  match Matcher.build builder.config entries with
  | .error e => throw e
  | .ok matcher =>
    if !entries.isEmpty then
      emit (.compiledMatcher entries.length matcher.statics.size matcher.dynamicCount
        matcher.highestOrdinal)
    return some matcher

/-- Builds the matcher of a known method. The one for all methods has been built before. -/
def matcherEntry (builder : Builder α) (method : Method) :
    EStateM RouterError Log (Method × Option Matcher) := do
  if method = allMethods then return (method, none)
  else return (method, ← builder.matcherFor method)

/-- Compiles the matchers of all known methods and the one for the others. -/
def compile (builder : Builder α) :
    EStateM RouterError Log (OrderedMap Method Matcher × Matcher) := do
  let fallback := (← builder.matcherFor allMethods).getD {}
  let own ← builder.methods.mapM builder.matcherEntry
  emit (.routerFrozen builder.methods.length (own.countP (·.2.isSome)) builder.handlers.size)
  return (.ofList (own.map fun entry => (entry.1, entry.2.getD fallback)), fallback)

def takeHandlers (builder : Builder α) : Array α × Builder α :=
  (builder.handlers, { builder with handlers := #[] })

/-- Compiles all matchers. The builder itself stays as it is. -/
def freeze (builder : Builder α) : EStateM RouterError Log (FrozenRouter α) := do
  let (matchers, fallback) ← builder.compile
  return { handlers := builder.handlers, matchers, fallback }

end Builder

end PathRouter
