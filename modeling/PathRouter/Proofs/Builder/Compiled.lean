import Mathlib
import PathRouter.Proofs.Builder.Freeze
import PathRouter.Proofs.Matcher.Kept

/-!
Freezing drops nothing. The two tables of a method become the entries of one matcher, and every key
of them is found there again, once, with its chain. An expander may produce a path that ends in a
star, so the same key can stand in both tables; then the method has no matcher, and the builder can
not be frozen.
-/

namespace PathRouter

namespace MethodTables

variable {tables : MethodTables} {key : Path}

theorem map_fst_entries (tables : MethodTables) :
    tables.entries.map Prod.fst = tables.middleware.keys ++ tables.routes.keys :=
  List.map_append ..

/-- A dynamic key that stands in both tables is an entry twice. -/
theorem not_nodup_dynamicEntries (hmiddleware : key ∈ tables.middleware.keys)
    (hroutes : key ∈ tables.routes.keys) (hdynamic : key.isStatic = false) :
    ¬((dynamicEntries tables.entries).map Prod.fst).Nodup := by
  have hlisted {table : RouteTable} (hkey : key ∈ table.keys) :
      key ∈ (dynamicEntries table.entries).map Prod.fst := by
    obtain ⟨e, he, rfl⟩ := List.mem_map.1 hkey
    exact List.mem_map_of_mem (mem_dynamicEntries.2 ⟨he, hdynamic⟩)
  rw [entries, dynamicEntries, List.filter_append, List.map_append, List.nodup_append]
  rintro ⟨-, -, hdisjoint⟩
  exact hdisjoint key (hlisted hmiddleware) key (hlisted hroutes) rfl

end MethodTables

section

variable [SizeRule]

namespace Builder

variable {α : Type} {builder : Builder α} {method : Method} {tables : MethodTables}

theorem Reachable.mem_methods (h : builder.Reachable) :
    ∀ method ∈ builder.tables.keys, method ∈ builder.methods := by
  refine (h.invariant (P := fun builder : Builder α =>
    ∀ method ∈ builder.tables.keys, method ∈ builder.methods) ?_ ?_ fun _ _ _ h => h).2
  · intro method hmethod
    rw [List.mem_singleton.1 hmethod]
    exact List.mem_cons_self
  · intro before after method path wildcard handler _ hmethods _ hadded other hother
    rw [hadded.mem_methods]
    exact (hadded.mem_keys.1 hother).imp_left (hmethods other)

/-- The middleware of a method are wildcards, whatever the expander makes of the other paths. -/
theorem Reachable.isWildcard (h : builder.Reachable)
    (hget : builder.tables.get? method = some tables) :
    ∀ key ∈ tables.middleware.keys, key.isWildcard = true := by
  refine (h.invariant (P := fun builder : Builder α => ∀ method tables,
    builder.tables.get? method = some tables →
      ∀ key ∈ tables.middleware.keys, key.isWildcard = true) ?_ ?_ fun _ _ _ h => h).2 _ _ hget
  · intro method tables hget key hkey
    rw [get?_empty hget] at hkey
    cases hkey
  · intro before after method path wildcard handler hwf hwild hwildcard hadded other tables hget key
      hkey
    rcases hadded.mem_middleware hwf hget hkey with ⟨source, old, hsource, hold⟩ | ⟨hsome, rfl⟩
    · exact hwild source old hsource key hold
    · obtain ⟨compiled, rfl⟩ := Option.isSome_iff_exists.1 hsome
      exact (Path.wildcard?_eq_some hwildcard).1

omit [SizeRule] in
theorem hasOwnMatcher_of_mem (hget : builder.tables.get? method = some tables) {key : Path}
    (hkey : key ∈ tables.middleware.keys) : builder.hasOwnMatcher method = true :=
  hasOwnMatcher_iff.2 (Or.inr ⟨tables, .middleware, key, hget, hkey⟩)

/-- Freezing drops no entry. If it succeeds, every key of a method's tables stands in the method's
matcher once, with its chain, and there is nothing else. A key in both tables keeps the method from
its matcher, and the builder from being frozen. -/
theorem freeze_keeps_tables (h : builder.Reachable)
    (hget : builder.tables.get? method = some tables) :
    (∀ log router log', builder.freeze.run log = .ok router log' →
      (tables.entries.map Prod.fst).Nodup ∧
      ∃ ordinal, (router.matcherOf method).Keeps tables.entries ordinal) ∧
    ∀ key ∈ tables.middleware.keys, key ∈ tables.routes.keys → ∀ log,
      (∃ e ∈ tables.entries, ∃ log',
        (builder.matcherFor method).run log = .error (.unsupportedPath e.1) log') ∧
      ∃ cause log', builder.freeze.run log = .error cause log' := by
  have hwf := h.wellFormed
  have hentries : builder.entriesOf method = tables.entries :=
    hwf.entriesOf_eq (by rw [tablesFor, if_pos rfl, hget, Option.getD_some])
  constructor
  · intro log router log' hfreeze
    have hbuild := (freeze_eq_ok h.mem_methods hfreeze).2 method
    rw [hentries] at hbuild
    obtain ⟨a, merged, hbuilt⟩ := Matcher.exists_built hbuild
    have hnodup : (tables.entries.map Prod.fst).Nodup := by
      rw [MethodTables.map_fst_entries, List.nodup_append]
      refine ⟨hwf.tables_nodup method tables hget .middleware,
        hwf.tables_nodup method tables hget .routes, ?_⟩
      rintro key hmiddleware _ hroutes rfl
      exact MethodTables.not_nodup_dynamicEntries hmiddleware hroutes
        (Path.isStatic_of_isWildcard (h.isWildcard hget key hmiddleware))
        (Matcher.nodup_dynamicEntries hbuilt.holds)
    exact ⟨hnodup, _, hbuilt.keeps hnodup⟩
  · intro key hmiddleware hroutes log
    have htwice := MethodTables.not_nodup_dynamicEntries hmiddleware hroutes
      (Path.isStatic_of_isWildcard (h.isWildcard hget key hmiddleware))
    obtain ⟨e, he, herror⟩ := Matcher.build_eq_error builder.config htwice
    rw [← hentries] at herror
    refine ⟨⟨e, he, matcherFor_eq_error (hasOwnMatcher_of_mem hget hmiddleware) herror log⟩, ?_⟩
    cases hfreeze : builder.freeze.run log with
    | error cause log' => exact ⟨cause, log', rfl⟩
    | ok router log' =>
        rw [(freeze_eq_ok h.mem_methods hfreeze).2 method] at herror
        cases herror

end Builder

end

/-- A builder that is frozen, and one whose expander makes a route of a wildcard. -/
theorem Builder.freeze_keeps_tables_expanded :
    (∃ (builder : Builder Nat) (tables : MethodTables) (router : FrozenRouter Nat) (log : Log),
      builder.Reachable ∧ builder.tables.get? "GET" = some tables ∧
      builder.freeze.run [] = .ok router log ∧ tables.entries.length = 3 ∧
      ∃ ordinal, (router.matcherOf "GET").Keeps tables.entries ordinal) ∧
    ∃ (builder : Builder Nat) (tables : MethodTables) (key : Path),
      builder.Reachable ∧ builder.tables.get? "GET" = some tables ∧
      key ∈ tables.middleware.keys ∧ key ∈ tables.routes.keys ∧
      ∃ cause log, builder.freeze.run [] = .error cause log := by
  constructor
  · have hfrozen : (match (({} : Builder Nat).addAll [("ALL", "/a/*".toList, 10),
        ("GET", "/a/:x/b".toList, 20), ("GET", "/a".toList, 30)]).freeze.run [] with
      | .ok router _ => some router.handlerCount
      | .error _ _ => none) = some 3 := by
      cbv
    have htables : ((({} : Builder Nat).addAll [("ALL", "/a/*".toList, 10),
        ("GET", "/a/:x/b".toList, 20), ("GET", "/a".toList, 30)]).tables.get? "GET").map
          (·.entries.length) = some 3 := by
      cbv
    have hreach := Reachable.new.addAll [("ALL", "/a/*".toList, 10),
      ("GET", "/a/:x/b".toList, 20), ("GET", "/a".toList, 30)]
    obtain ⟨tables, hget, hlength⟩ := Option.map_eq_some_iff.1 htables
    split at hfrozen
    · next router log hfreeze =>
        exact ⟨_, tables, router, log, hreach, hget, hfreeze, hlength,
          ((freeze_keeps_tables hreach hget).1 [] router log hfreeze).2⟩
    · cases hfrozen
  · have htables : (((({} : Builder Nat).withExpander fun path =>
        if path = "/x".toList then some ["/a/*".toList] else none).addAll
          [("GET", "/a/*".toList, 10), ("GET", "/x".toList, 20)]).tables.get? "GET").map
            (fun tables => (tables.middleware.keys, tables.routes.keys)) =
              some (["/a/*".toList], ["/a/*".toList]) := by
      cbv
    have hreach := ((Reachable.new (α := Nat)).withExpander fun path =>
      if path = "/x".toList then some ["/a/*".toList] else none).addAll
        [("GET", "/a/*".toList, 10), ("GET", "/x".toList, 20)]
    obtain ⟨tables, hget, hkeys⟩ := Option.map_eq_some_iff.1 htables
    rw [Prod.mk.injEq] at hkeys
    have hmiddleware : "/a/*".toList ∈ tables.middleware.keys := by simp [hkeys.1]
    have hroutes : "/a/*".toList ∈ tables.routes.keys := by simp [hkeys.2]
    exact ⟨_, tables, _, hreach, hget, hmiddleware, hroutes,
      ((freeze_keeps_tables hreach hget).2 _ hmiddleware hroutes []).2⟩

end PathRouter
