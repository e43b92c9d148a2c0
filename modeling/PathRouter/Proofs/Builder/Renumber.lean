import PathRouter.Proofs.Builder.Freeze
import PathRouter.Proofs.Matcher.Renumber

/-!
Tables with other numbers for the handlers. Registrations read the paths of a table and copy, and
extend, its chains, but never look into them. So a replay with other numbers for the handlers ends
with the same tables, up to the numbers.
-/

namespace PathRouter

namespace RouteTable

variable {f : HandlerId → HandlerId}

theorem longestFirst_renumber (table : RouteTable) :
    WildcardCache.longestFirst (table.renumber f) =
      (WildcardCache.longestFirst table).map (Entry.renumber f) :=
  (List.map_mergeSort (f := Entry.renumber f) fun _ _ _ _ => rfl).symm

theorem closest_renumber [SizeRule] (middleware : RouteTable) (path : Path) :
    (middleware.renumber f).closest path = (middleware.closest path).map (List.map f) := by
  rw [closest, closest, longestFirst_renumber, List.find?_map, Option.map_map, Option.map_map]
  rfl

end RouteTable

namespace MethodTables

def renumber (f : HandlerId → HandlerId) (tables : MethodTables) : MethodTables where
  middleware := tables.middleware.renumber f
  routes := tables.routes.renumber f

variable {f : HandlerId → HandlerId}

@[simp] theorem table_renumber (tables : MethodTables) (kind : TableKind) :
    (tables.renumber f).table kind = (tables.table kind).renumber f := by
  cases kind <;> rfl

theorem entries_renumber (tables : MethodTables) :
    (tables.renumber f).entries = tables.entries.map (Entry.renumber f) :=
  (List.map_append ..).symm

theorem modifyTable_renumber (tables : MethodTables) (kind : TableKind)
    {change change' : RouteTable → RouteTable}
    (h : ∀ table : RouteTable, change' (table.renumber f) = (change table).renumber f) :
    (tables.renumber f).modifyTable kind change' = (tables.modifyTable kind change).renumber f := by
  cases kind <;> simp [modifyTable, renumber, h]

/-- A handler that is appended to some of the chains, before or after they are renumbered. -/
theorem update_concat_renumber (table : RouteTable) (P : Path → Prop) [DecidablePred P]
    (id : HandlerId) :
    (table.renumber f).update (fun key chain => if P key then chain ++ [f id] else chain) =
      RouteTable.renumber f
        (table.update fun key chain => if P key then chain ++ [id] else chain) := by
  rw [RouteTable.renumber, RouteTable.renumber, OrderedMap.update_update, OrderedMap.update_update]
  congr 1
  funext key chain
  split
  · rw [List.map_append, List.map_singleton]
  · rfl

theorem attach_renumber (tables : MethodTables) (wildcard : Wildcard) (id : HandlerId) :
    (tables.renumber f).attach wildcard (f id) = (tables.attach wildcard id).renumber f := by
  simp only [attach, renumber]
  rw [update_concat_renumber, update_concat_renumber]

variable [SizeRule]

theorem inherited_renumber (tables : MethodTables) (path : Path) :
    (tables.renumber f).inherited path = (tables.inherited path).map f := by
  show ((tables.middleware.renumber f).closest path).getD [] = _
  rw [RouteTable.closest_renumber, inherited]
  cases tables.middleware.closest path <;> rfl

theorem seeded_renumber (tables : MethodTables) (kind : TableKind) (path : Path) :
    (tables.renumber f).seeded kind path = (tables.seeded kind path).renumber f := by
  rw [seeded, seeded, table_renumber, RouteTable.contains_renumber]
  split
  · rfl
  · apply modifyTable_renumber
    intro table
    rw [inherited_renumber, RouteTable.set_renumber]

theorem routed_renumber (tables : MethodTables) (path : Path) (id : HandlerId) :
    (tables.renumber f).routed (f id) path = (tables.routed id path).renumber f := by
  rw [routed, routed, seeded_renumber]
  apply modifyTable_renumber
  intro table
  exact update_concat_renumber table (· = path) id

theorem foldl_routed_renumber (tables : MethodTables) (paths : List Path) (id : HandlerId) :
    paths.foldl (routed (f id)) (tables.renumber f) =
      (paths.foldl (routed id) tables).renumber f := by
  induction paths generalizing tables with
  | nil => rfl
  | cons path paths ih => rw [List.foldl_cons, List.foldl_cons, routed_renumber, ih]

theorem record_renumber (expander : Expander) (tables : MethodTables) (path : Path)
    (id : HandlerId) : (tables.renumber f).record expander (path, f id) =
      (tables.record expander (path, id)).renumber f := by
  simp only [record]
  cases path.wildcard? with
  | error e => rfl
  | ok wildcard =>
      cases wildcard with
      | none => exact foldl_routed_renumber tables (expander.paths path) id
      | some wildcard =>
          simp only [registered]
          rw [seeded_renumber, attach_renumber]

/-- A replay ends with the same tables whatever the numbers of the handlers are, up to these. -/
theorem replay_renumber (expander : Expander) (f : HandlerId → HandlerId)
    (adds : List (Path × HandlerId)) :
    replay expander (adds.map (Prod.map id f)) = (replay expander adds).renumber f := by
  induction adds using List.reverseRecOn with
  | nil => rfl
  | append_singleton adds add ih =>
      rw [List.map_append, List.map_singleton, replay_concat, replay_concat, ih]
      exact record_renumber expander _ add.1 add.2

end MethodTables

end PathRouter
