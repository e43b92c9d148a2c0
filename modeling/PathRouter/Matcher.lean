import PathRouter.Error
import PathRouter.Params
import PathRouter.Pattern.Match
import PathRouter.Pattern.Reader
import PathRouter.RouteTable
import PathRouter.Trie.Emission
import PathRouter.Trie.Place

/-!
The compiled routes of one method. Static paths are looked up as they stand; all others share one
composite pattern, and the group that takes part in its match tells the route.
-/

namespace PathRouter

/-- A path and its chain, as they are handed to a matcher. -/
abbrev Entry := Path × Chain

/-- What a match of the composite pattern leads to: a chain, and the ordinal of the group of each
parameter. -/
structure Route where
  chain : Chain
  params : List (List Char × Nat)
  deriving DecidableEq, Repr

structure Matcher where
  pattern : Option Pattern := none
  /-- The routes by the ordinals of their groups. -/
  routes : List (Option Route) := []
  /-- The chains of static paths. -/
  statics : RouteTable := {}
  deriving DecidableEq, Repr

/-- A dynamic entry that has been merged into the trie, with the slots of its parameters. -/
structure Pending where
  path : Path
  chain : Chain
  slots : List (List Char × Nat)
  deriving DecidableEq, Repr

/-- The route of a merged entry, by the ordinals of the slots. A slot without one is an error. -/
def Pending.remap (ordinals : List (Option Nat)) (entry : Pending) : Except RouterError Route := do
  let params ← entry.slots.mapM fun (name, slot) =>
    match ordinals[slot]?.join with
    | some ordinal => .ok (name, ordinal)
    | none => .error (.unsupportedPath entry.path)
  return { chain := entry.chain, params }

structure Assembly where
  trie : Trie := {}
  statics : RouteTable := {}
  /-- The dynamic entries so far; the place of an entry is the index of its route. -/
  pending : List Pending := []
  deriving DecidableEq, Repr

/-- Takes in one entry in one walk. A static path is only checked. -/
def Assembly.place (assembly : Assembly) (entry : Entry) : Except RouterError Assembly :=
  let (path, chain) := entry
  let checkOnly := path.isStatic
  let statics := if checkOnly then assembly.statics.set path chain else assembly.statics
  match (Trie.place { path, index := assembly.pending.length, checkOnly }).run assembly.trie with
  | .ok slots trie =>
    let pending :=
      if checkOnly then assembly.pending else assembly.pending ++ [{ path, chain, slots }]
    .ok { trie, statics, pending }
  | .error _ _ => .error (.unsupportedPath path)

/-- Hands out what is in stock to the places that ask for it. It is taken by the first one, and
nothing is left of it for another. -/
def handOut {α : Type} : List (Option Nat) → List (Option α) → List (Option α)
  | [], _ => []
  | none :: rest, stock => none :: handOut rest stock
  | some i :: rest, stock => stock[i]?.join :: handOut rest (stock.set i none)

namespace Matcher

/-- The entries, shortest path first; paths of one length keep their order. -/
def shortestFirst (entries : List Entry) : List Entry :=
  entries.mergeSort fun a b => decide (a.1.byteLength ≤ b.1.byteLength)

/-- Builds the matcher of the given entries. The text of the composite pattern is written, and read
as a pattern; slots are replaced by ordinals, and each route goes to the place of its ordinal. -/
def build [SizeRule] (config : Config) (entries : List Entry) : Except RouterError Matcher := do
  if entries.isEmpty then return {}
  let assembly ← (shortestFirst entries).foldlM Assembly.place {}
  let compiled := assembly.trie.compile
  let merged ← assembly.pending.mapM (Pending.remap compiled.ordinals)
  let routes := handOut compiled.routes (merged.map some)
  match compiled.text.bind Pattern.read? with
  | none => return { routes, statics := assembly.statics }
  | some pattern =>
    match pattern.checked config with
    | .ok pattern => return { pattern := some pattern, routes, statics := assembly.statics }
    | .error cause => throw (.pattern cause)

def dynamicCount (matcher : Matcher) : Nat := matcher.routes.countP Option.isSome

def highestOrdinal (matcher : Matcher) : Nat := matcher.routes.length - 1

def routeIn? (matcher : Matcher) (captures : Captures) : Option Route :=
  matcher.routes.zipIdx.findSome? fun (route, ordinal) =>
    if captures.participates ordinal then route else none

/-- The parameters of a route, as far as their groups took part in the match. -/
def paramsIn (captures : Captures) (route : Route) : Params :=
  route.params.filterMap fun (name, ordinal) => (captures.text? ordinal).map (name, ·)

def lookup (matcher : Matcher) (path : Path) : Option (Chain × Params) :=
  match matcher.statics.get? path with
  | some chain => some (chain, [])
  | none => do
    let captures ← (← matcher.pattern).search path
    let route ← matcher.routeIn? captures
    return (route.chain, paramsIn captures route)

end Matcher

end PathRouter
