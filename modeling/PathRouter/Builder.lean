import PathRouter.Event
import PathRouter.Matcher
import PathRouter.Text.Quoted
import PathRouter.Wildcard.Cache

/-!
A router in its building phase: the handlers, the known methods, and for each method with
registrations of its own the tables of its routes and of its middleware.
-/

namespace PathRouter

/-- The name that stands for every method. -/
def allMethods : Method := "ALL"

def knownMethods : List Method := ["GET", "POST", "PUT", "DELETE", "OPTIONS", "PATCH"]

/-- Turns a registered path into the paths it stands for. With no paths, or an empty list of them,
the path stands for itself. -/
abbrev Expander := Path → Option (List Path)

def Expander.none : Expander := fun _ => Option.none

def Expander.paths (expander : Expander) (path : Path) : List Path :=
  match expander path with
  | some (p :: ps) => p :: ps
  | _ => [path]

inductive TableKind
  | middleware
  | routes
  deriving DecidableEq, Repr

structure MethodTables where
  middleware : RouteTable := {}
  routes : RouteTable := {}
  deriving DecidableEq, Repr

namespace MethodTables

def table (tables : MethodTables) : TableKind → RouteTable
  | .middleware => tables.middleware
  | .routes => tables.routes

def modifyTable (tables : MethodTables) (kind : TableKind) (f : RouteTable → RouteTable) :
    MethodTables :=
  match kind with
  | .middleware => { tables with middleware := f tables.middleware }
  | .routes => { tables with routes := f tables.routes }

end MethodTables

/-- The building phase of a router. -/
structure Builder (α : Type) where
  /-- All handlers, in the order of registration. -/
  handlers : Array α := #[]
  /-- The methods that get a matcher, in the order in which they became known. -/
  methods : List Method := allMethods :: knownMethods
  /-- The tables of each method with registrations of its own, and those for all methods. -/
  tables : OrderedMap Method MethodTables := .ofList [(allMethods, {})]
  wildcards : WildcardCache := {}
  expander : Expander := .none
  config : Config := {}

namespace Builder

variable {α : Type}

def withConfig (builder : Builder α) (config : Config) : Builder α := { builder with config }

def withExpander (builder : Builder α) (expander : Expander) : Builder α :=
  { builder with expander }

def display (builder : Builder α) : String :=
  let methods := ", ".intercalate (builder.methods.map fun m => Text.quoted m.toList)
  "RouterBuilder \x7b methods: [" ++ methods ++ "], handlers: " ++ toString builder.handlers.size
    ++ ", config: Config \x7b size_limit: " ++ toString builder.config.sizeLimit
    ++ ", nest_limit: " ++ toString builder.config.nestLimit ++ " \x7d \x7d"

end Builder

end PathRouter
