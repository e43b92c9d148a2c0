import PathRouter.Proofs.Matcher.Compose
import PathRouter.Proofs.OrderedMap

/-!
A matcher only carries the positions of handlers from the entries to the answers. If the handlers
are stored in other places, and all chains are renumbered accordingly, then the matcher is built
from the renumbered entries just as before, and answers with the renumbered chains.
-/

namespace PathRouter

variable {f : HandlerId → HandlerId}

def RouteTable.renumber (f : HandlerId → HandlerId) (table : RouteTable) : RouteTable :=
  table.update fun _ chain => chain.map f

namespace RouteTable

variable {table : RouteTable} {path : Path}

theorem get?_renumber : (table.renumber f).get? path = (table.get? path).map (List.map f) :=
  OrderedMap.get?_update ..

theorem contains_renumber : (table.renumber f).contains path = table.contains path := by
  rw [OrderedMap.contains, OrderedMap.contains, get?_renumber, Option.isSome_map]

theorem set_renumber (chain : Chain) :
    (table.renumber f).set path (chain.map f) = renumber f (table.set path chain) :=
  (OrderedMap.update_set ..).symm

end RouteTable

def Entry.renumber (f : HandlerId → HandlerId) (entry : Entry) : Entry :=
  (entry.1, entry.2.map f)

def Route.renumber (f : HandlerId → HandlerId) (route : Route) : Route :=
  { route with chain := route.chain.map f }

def Pending.renumber (f : HandlerId → HandlerId) (entry : Pending) : Pending :=
  { entry with chain := entry.chain.map f }

theorem Pending.route_renumber (composite : Composite) (entry : Pending) :
    (entry.renumber f).route composite = (entry.route composite).map (Route.renumber f) := by
  obtain ⟨path, chain, slots⟩ := entry
  simp only [route, renumber]
  cases List.mapM (m := Except RouterError) _ slots with
  | error e => rfl
  | ok params => rfl

namespace Assembly

def renumber (f : HandlerId → HandlerId) (assembly : Assembly) : Assembly :=
  { assembly with
    statics := assembly.statics.renumber f
    pending := assembly.pending.map (Pending.renumber f) }

theorem add_renumber (assembly : Assembly) (entry : Entry) :
    (assembly.renumber f).add (Entry.renumber f entry) =
      (assembly.add entry).map (renumber f) := by
  obtain ⟨path, chain⟩ := entry
  simp only [add, Entry.renumber, renumber, List.length_map]
  split
  · cases (Trie.check path).run assembly.trie with
    | error e trie => rfl
    | ok slots trie =>
        rw [RouteTable.set_renumber]
        rfl
  · cases (Trie.insert path assembly.pending.length).run assembly.trie with
    | error e trie => rfl
    | ok slots trie =>
        simp only [Except.map, renumber, List.map_append]
        rfl

end Assembly

namespace Matcher

def renumber (f : HandlerId → HandlerId) (matcher : Matcher) : Matcher :=
  { matcher with
    routes := matcher.routes.map (Option.map (Route.renumber f))
    statics := matcher.statics.renumber f }

theorem shortestFirst_renumber (entries : List Entry) :
    shortestFirst (entries.map (Entry.renumber f)) =
      (shortestFirst entries).map (Entry.renumber f) :=
  (List.map_mergeSort (f := Entry.renumber f) fun _ _ _ _ => rfl).symm

theorem build_renumber [SizeRule] (f : HandlerId → HandlerId) (config : Config)
    (entries : List Entry) :
    build config (entries.map (Entry.renumber f)) = (build config entries).map (renumber f) := by
  have hassembly : ((shortestFirst entries).map (Entry.renumber f)).foldlM Assembly.add {} =
      ((shortestFirst entries).foldlM Assembly.add {}).map (Assembly.renumber f) :=
    foldlM_map_comm Assembly.add_renumber (shortestFirst entries) {}
  rw [build_eq_compose, build_eq_compose, compose, compose, shortestFirst_renumber, hassembly]
  cases (shortestFirst entries).foldlM Assembly.add {} with
  | error e => rfl
  | ok assembly =>
      have hmerged : (assembly.renumber f).pending.mapM (Pending.route assembly.trie.composite) =
          (assembly.pending.mapM (Pending.route assembly.trie.composite)).map
            (List.map (Route.renumber f)) :=
        mapM_map_comm (Pending.route_renumber assembly.trie.composite) assembly.pending
      show ((assembly.renumber f).pending.mapM (Pending.route assembly.trie.composite) >>= _) =
        Except.map _ (assembly.pending.mapM (Pending.route assembly.trie.composite) >>= _)
      rw [hmerged]
      cases assembly.pending.mapM (Pending.route assembly.trie.composite) with
      | error e => rfl
      | ok merged =>
          have htrie : (assembly.renumber f).trie = assembly.trie := rfl
          have hroutes : (assembly.trie.composite.routeOf.map fun index =>
              index.bind ((merged.map (Route.renumber f))[·]?)) =
              (assembly.trie.composite.routeOf.map fun index => index.bind (merged[·]?)).map
                (Option.map (Route.renumber f)) := by
            rw [List.map_map]
            apply List.map_congr_left
            rintro (_ | index) _
            · rfl
            · exact List.getElem?_map
          simp only [Except.map, bind, Except.bind, htrie, hroutes]
          cases assembly.trie.composite.pattern with
          | none => rfl
          | some pattern =>
              dsimp only
              cases pattern.checked config with
              | error cause => rfl
              | ok pattern => rfl

theorem routeIn?_renumber (matcher : Matcher) (captures : Captures) :
    (matcher.renumber f).routeIn? captures =
      (matcher.routeIn? captures).map (Route.renumber f) := by
  rw [routeIn?, routeIn?, renumber, List.zipIdx_map, List.findSome?_map, List.map_findSome?]
  congr 1
  funext ⟨route, ordinal⟩
  simp only [Function.comp_apply, Prod.map_apply, id_eq]
  split <;> rfl

/-- The answer has the chain of before, with the other numbers, and the same parameters. -/
theorem lookup_renumber (matcher : Matcher) (path : Path) :
    (matcher.renumber f).lookup path =
      (matcher.lookup path).map (Prod.map (List.map f) id) := by
  have hstatic : (matcher.renumber f).statics.get? path =
      (matcher.statics.get? path).map (List.map f) := RouteTable.get?_renumber
  have hpattern : (matcher.renumber f).pattern = matcher.pattern := rfl
  rw [lookup, lookup, hstatic]
  cases matcher.statics.get? path with
  | some chain => rfl
  | none =>
      rw [hpattern]
      cases matcher.pattern with
      | none => rfl
      | some pattern =>
          simp only [Option.map_none, Option.bind_eq_bind, Option.bind_some]
          cases pattern.search path with
          | none => rfl
          | some captures =>
              rw [Option.bind_some, Option.bind_some, routeIn?_renumber]
              cases matcher.routeIn? captures with
              | none => rfl
              | some route => rfl

end Matcher

end PathRouter
