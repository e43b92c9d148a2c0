import PathRouter.Proofs.Builder.Order
import PathRouter.Proofs.Handlers
import PathRouter.Proofs.Router.Staged

/-!
The order of the handlers in an answer. A lookup answers with a chain from the tables that the
router was frozen with, so its handlers come in the order of registration and all of them are in the
store, from whichever end they are taken.
-/

namespace PathRouter

open Builder (Record Recorded Ordered)

namespace Handlers

variable {α : Type}

/-- The second view is what is left of the first one after some handlers were taken from it. -/
inductive Leaves (handlers : Handlers α) : Handlers α → Prop
  | all : Leaves handlers handlers
  | next {rest : Handlers α} : Leaves handlers rest → Leaves handlers rest.next.2
  | nextBack {rest : Handlers α} : Leaves handlers rest → Leaves handlers rest.nextBack.2
  | nth {rest : Handlers α} (n : Nat) : Leaves handlers rest → Leaves handlers (rest.nth n).2

theorem next_sublist (handlers : Handlers α) : handlers.next.2.store = handlers.store ∧
    handlers.next.2.ids.Sublist handlers.ids := by
  obtain ⟨store, ids⟩ := handlers
  cases ids with
  | nil => exact ⟨rfl, List.Sublist.refl _⟩
  | cons id ids => exact ⟨rfl, List.sublist_cons_self id ids⟩

theorem nextBack_sublist (handlers : Handlers α) : handlers.nextBack.2.store = handlers.store ∧
    handlers.nextBack.2.ids.Sublist handlers.ids := by
  rw [nextBack]
  split
  · exact ⟨rfl, List.Sublist.refl _⟩
  · exact ⟨rfl, List.dropLast_sublist _⟩

/-- What is left is from the same store, and in the same order. -/
theorem Leaves.sublist {handlers rest : Handlers α} (h : handlers.Leaves rest) :
    rest.store = handlers.store ∧ rest.ids.Sublist handlers.ids := by
  induction h with
  | all => exact ⟨rfl, List.Sublist.refl _⟩
  | @next rest _ ih =>
      obtain ⟨hstore, hids⟩ := rest.next_sublist
      exact ⟨hstore.trans ih.1, hids.trans ih.2⟩
  | @nextBack rest _ ih =>
      obtain ⟨hstore, hids⟩ := rest.nextBack_sublist
      exact ⟨hstore.trans ih.1, hids.trans ih.2⟩
  | @nth rest n _ ih =>
      obtain ⟨hstore, hids⟩ := next_sublist { rest with ids := rest.ids.drop n }
      exact ⟨hstore.trans ih.1, (hids.trans (List.drop_sublist n rest.ids)).trans ih.2⟩

/-- The handlers stand in the order of their registrations, and all of them are in the store. -/
structure InOrder (records : List (Record α)) (handlers : Handlers α) : Prop where
  store : handlers.store.toList = records.map Record.handler
  bounded : ∀ id ∈ handlers.ids, id < handlers.store.size
  sorted : handlers.ids.Pairwise (· ≤ ·)
  strict : (∀ r ∈ records, r.paths.Nodup) → handlers.ids.Pairwise (· < ·)

namespace InOrder

variable {records : List (Record α)} {handlers rest : Handlers α}

theorem leaves (h : handlers.InOrder records) (hrest : handlers.Leaves rest) :
    rest.InOrder records := by
  obtain ⟨hstore, hids⟩ := hrest.sublist
  constructor
  case store => rw [hstore, h.store]
  case bounded =>
    intro id hid
    rw [hstore]
    exact h.bounded id (hids.subset hid)
  case sorted => exact h.sorted.sublist hids
  case strict => exact fun hnodup => (h.strict hnodup).sublist hids

theorem exists_handler (h : handlers.InOrder records) {id : HandlerId} (hid : id ∈ handlers.ids) :
    ∃ r, records[id]? = some r ∧ handlers.store[id]? = some r.handler := by
  have hlength : id < records.length := by
    have hsize := congrArg List.length h.store
    rw [Array.length_toList, List.length_map] at hsize
    rw [← hsize]
    exact h.bounded id hid
  refine ⟨records[id], List.getElem?_eq_getElem hlength, ?_⟩
  rw [← Array.getElem?_toList, h.store, List.getElem?_map, List.getElem?_eq_getElem hlength,
    Option.map_some]

theorem isSome_next (h : handlers.InOrder records) (hne : handlers.ids ≠ []) :
    handlers.next.1.isSome ∧ handlers.nextBack.1.isSome := by
  constructor
  · obtain ⟨store, ids⟩ := handlers
    cases ids with
    | nil => exact absurd rfl hne
    | cons id ids =>
        obtain ⟨r, -, hstore⟩ := h.exists_handler List.mem_cons_self
        exact congrArg Option.isSome hstore
  · rw [nextBack]
    split
    · next hlast => exact absurd (List.getLast?_eq_none_iff.1 hlast) hne
    · next id hlast =>
        obtain ⟨r, -, hstore⟩ := h.exists_handler (List.mem_of_getLast? hlast)
        exact congrArg Option.isSome hstore

theorem toList_eq (h : handlers.InOrder records) :
    handlers.toList.map some = handlers.ids.map fun id => records[id]?.map Record.handler := by
  have hwithin : handlers.Within := h.bounded
  rw [hwithin.map_toList]
  apply List.map_congr_left
  intro id _
  rw [← Array.getElem?_toList, h.store, List.getElem?_map]

end InOrder

/-- Whatever has been taken from the handlers, the others are in order, the next one is there, and
each of them is that of its record. -/
def Runs (records : List (Record α)) (handlers : Handlers α) : Prop :=
  ∀ rest, handlers.Leaves rest → rest.InOrder records ∧
    (rest.ids ≠ [] → rest.next.1.isSome ∧ rest.nextBack.1.isSome) ∧
    rest.toList.map some = rest.ids.map fun id => records[id]?.map Record.handler

theorem InOrder.runs {records : List (Record α)} {handlers : Handlers α}
    (h : handlers.InOrder records) : handlers.Runs records := by
  intro rest hrest
  have hin := h.leaves hrest
  exact ⟨hin, hin.isSome_next, hin.toList_eq⟩

end Handlers

theorem Matcher.Built.exists_mem_of_lookup {entries : List Entry} {matcher : Matcher} {a : Assembly}
    {merged : List Route} (h : Matcher.Built entries matcher a merged) {path : Path} {chain : Chain}
    {params : Params} (hlookup : matcher.lookup path = some (chain, params)) :
    ∃ e ∈ entries, e.2 = chain := by
  cases hstatic : a.statics.get? path with
  | some own =>
      rw [h.lookup_static hstatic, Option.some.injEq, Prod.mk.injEq] at hlookup
      rw [h.holds.statics] at hstatic
      have hmem := (mem_staticEntries.1 (OrderedMap.mem_of_get?_ofList hstatic)).1
      exact ⟨(path, own), mem_shortestFirst.1 hmem, hlookup.1⟩
  | none =>
      obtain ⟨-, e, -, he, -, hchain, -⟩ := h.lookup_eq_some hstatic hlookup
      exact ⟨e, he, hchain⟩

section

variable [SizeRule]

namespace FrozenRouter

variable {α : Type} {records : List (Record α)} {builder : Builder α} {router : FrozenRouter α}

/-- A frozen router answers with chains from the tables of its builder. -/
theorem exists_lists_of_find (h : builder.Reachable) {log log' : Log}
    (hfreeze : builder.freeze.run log = .ok router log') {method : Method} {path : Path}
    {found : Match α} (hfind : router.find method path = some found) :
    found.handlers.store = builder.handlers ∧ ∃ source tables,
      builder.tables.get? source = some tables ∧ tables.Lists found.handlers.ids := by
  obtain ⟨hhandlers, hbuild⟩ := Builder.freeze_eq_ok h.mem_methods hfreeze
  obtain ⟨tables, htables⟩ : ∃ tables, builder.tablesFor method method = some tables :=
    ⟨_, if_pos rfl⟩
  obtain ⟨source, hsource⟩ := h.wellFormed.exists_source htables
  obtain ⟨a, merged, hbuilt⟩ := Matcher.exists_built (hbuild method)
  rw [h.wellFormed.entriesOf_eq htables] at hbuilt
  obtain ⟨⟨chain, params⟩, hlookup, hfound⟩ := Option.bind_eq_some_iff.1 hfind
  cases hfound
  obtain ⟨⟨key, _⟩, he, rfl⟩ := hbuilt.exists_mem_of_lookup hlookup
  refine ⟨hhandlers, source, tables, hsource, ?_⟩
  have hnodup := h.wellFormed.tables_nodup source tables hsource
  rcases List.mem_append.1 he with hmiddleware | hroutes
  · exact ⟨.middleware, key, (OrderedMap.mem_entries_iff (hnodup .middleware)).1 hmiddleware⟩
  · exact ⟨.routes, key, (OrderedMap.mem_entries_iff (hnodup .routes)).1 hroutes⟩

theorem inOrder_of_find (h : Recorded records builder) {log log' : Log}
    (hfreeze : builder.freeze.run log = .ok router log') {method : Method} {path : Path}
    {found : Match α} (hfind : router.find method path = some found) :
    found.handlers.InOrder records := by
  obtain ⟨hstore, source, tables, hget, hlists⟩ :=
    exists_lists_of_find h.reachable hfreeze hfind
  have hordered := h.ordered
  constructor
  case store => rw [hstore, hordered.handlers]
  case bounded =>
    rw [hstore]
    exact hordered.bounded source tables _ hget hlists
  case sorted => exact hordered.sorted source tables _ hget hlists
  case strict => exact fun hnodup => hordered.strict hnodup source tables _ hget hlists

end FrozenRouter

namespace Router

variable {α : Type} {records : List (Record α)} {builder : Builder α}

/-- Whatever is called on a router in one place, it is the builder with the first of the
registrations, or what this one froze to. -/
theorem after_cases (builder : Builder α) (calls : List (Call α)) : ∃ before, before <+: calls ∧
    ((building builder).after calls = building (builder.addAll (registrations before)) ∨
      ∃ router log, (builder.addAll (registrations before)).freeze.run [] = .ok router log ∧
        (building builder).after calls = .frozen router) := by
  rcases staysOpen_or_freeze builder calls with hopen | ⟨before, rest, router, log, rfl, hopen, hok⟩
  · exact ⟨calls, List.prefix_rfl, Or.inl (after_of_staysOpen hopen)⟩
  · exact ⟨before, List.prefix_append _ _,
      Or.inr ⟨router, log, hok, (after_of_freeze hopen hok rest).1⟩⟩

/-- Handlers come in the order of registration, and are there. In the tables of every builder the
chains are in order, and below the size of the store. So are the handlers of every answer, be it of
a frozen router, or of a router in one place after whatever calls, with the registrations that were
accepted before it froze. -/
theorem handlers_in_order (h : Recorded records builder) :
    Ordered records builder ∧
    (∀ log router log' method path found, builder.freeze.run log = .ok router log' →
      router.find method path = some found → found.handlers.Runs records) ∧
    ∀ calls, ∃ before, before <+: calls ∧
      (∀ base, (building builder).after calls = building base →
        Ordered (records ++ builder.recordsOf (registrations before)) base) ∧
      ∀ method path found, ((building builder).after calls).find method path = some found →
        found.handlers.Runs (records ++ builder.recordsOf (registrations before)) := by
  refine ⟨h.ordered, fun log router log' method path found hfreeze hfind => ?_, fun calls => ?_⟩
  · exact (FrozenRouter.inOrder_of_find h hfreeze hfind).runs
  · obtain ⟨before, hprefix, hcases⟩ := after_cases builder calls
    have hmore := h.addAll (registrations before)
    refine ⟨before, hprefix, ?_⟩
    rcases hcases with hopen | ⟨router, log, hfreeze, hfrozen⟩
    · refine ⟨fun base hbase => ?_, fun method path found hfind => ?_⟩
      · rw [hopen, building.injEq] at hbase
        exact hbase ▸ hmore.ordered
      · rw [hopen] at hfind
        cases hfind
    · refine ⟨fun base hbase => ?_, fun method path found hfind => ?_⟩
      · rw [hfrozen] at hbase
        cases hbase
      · rw [hfrozen] at hfind
        exact (FrozenRouter.inOrder_of_find hmore hfreeze hfind).runs

end Router

end

/-- A wildcard for all methods, and a path that expands to one path twice; the router is asked too
early, and called again when it is frozen. -/
theorem Router.handlers_in_order_expanded : ∃ (builder : Builder Nat) (records : List (Record Nat)),
    Recorded records builder ∧ ∃ found before, before <+: [.find "GET" "/a/z".toList, .freeze,
        .add "GET" "/a/z".toList 30] ∧
      ((building builder).after [.find "GET" "/a/z".toList, .freeze,
        .add "GET" "/a/z".toList 30]).find "GET" "/a/z".toList = some found ∧
      found.handlers.ids = [0, 1, 1] ∧
      found.handlers.Runs (records ++ builder.recordsOf (registrations before)) := by
  have hfound : (((building ((({} : Builder Nat).withExpander fun path =>
      if path = "/x".toList then some ["/a/:id".toList, "/a/:id".toList] else none).addAll
        [("ALL", "/a/*".toList, 10), ("GET", "/x".toList, 20)])).after
          [.find "GET" "/a/z".toList, .freeze, .add "GET" "/a/z".toList 30]).find "GET"
            "/a/z".toList).map (·.handlers.ids) = some [0, 1, 1] := by
    cbv
  obtain ⟨found, hfind, hids⟩ := Option.map_eq_some_iff.1 hfound
  have hrecords := ((Recorded.new (α := Nat)).withExpander fun path =>
    if path = "/x".toList then some ["/a/:id".toList, "/a/:id".toList] else none).addAll
      [("ALL", "/a/*".toList, 10), ("GET", "/x".toList, 20)]
  obtain ⟨-, -, hcalls⟩ := handlers_in_order hrecords
  obtain ⟨before, hprefix, -, hruns⟩ := hcalls [.find "GET" "/a/z".toList, .freeze,
    .add "GET" "/a/z".toList 30]
  exact ⟨_, _, hrecords, found, before, hprefix, hfind, hids, hruns _ _ found hfind⟩

end PathRouter
