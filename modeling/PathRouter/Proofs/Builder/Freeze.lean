import PathRouter.Builder.Freeze
import PathRouter.Proofs.Builder.Listing
import PathRouter.Proofs.OrderedMap

/-!
What a frozen router looks a method up in. A method has a matcher of its own, or shares the one for
all methods because it has nothing to add to it; in both cases the matcher is built from the entries
of the method, and these are the entries of its tables.
-/

namespace PathRouter

def MethodTables.entries (tables : MethodTables) : List Entry :=
  tables.middleware.entries ++ tables.routes.entries

namespace Builder

variable {α : Type} {builder : Builder α} {log log' : Log}

/-! ### Entries -/

theorem ownTable?_eq_some {method : Method} {kind : TableKind} {own : RouteTable}
    (h : builder.ownTable? method kind = some own) :
    ∃ tables, builder.tables.get? method = some tables ∧ own = tables.table kind := by
  obtain ⟨tables, hget, htable⟩ := Option.map_eq_some_iff.1 (Option.filter_eq_some_iff.1 h).1
  exact ⟨tables, hget, htable.symm⟩

theorem isSome_ownTable?_iff {method : Method} {kind : TableKind} :
    (builder.ownTable? method kind).isSome ↔ ∃ tables,
      builder.tables.get? method = some tables ∧ ∃ key, key ∈ (tables.table kind).keys := by
  rw [ownTable?]
  cases builder.tables.get? method with
  | none => simp
  | some tables =>
      have hlists : (∃ key, key ∈ (tables.table kind).keys) ↔ (tables.table kind).entries ≠ [] := by
        rw [Ne, ← List.map_eq_nil_iff, List.eq_nil_iff_forall_not_mem, not_forall]
        simp only [not_not]
        rfl
      simp [OrderedMap.isEmpty, Option.filter, hlists]

theorem hasOwnMatcher_iff {method : Method} : builder.hasOwnMatcher method = true ↔
    method = allMethods ∨ ∃ tables kind key, builder.tables.get? method = some tables ∧
      key ∈ (tables.table kind).keys := by
  rw [hasOwnMatcher, Bool.or_eq_true, Bool.or_eq_true, decide_eq_true_eq, isSome_ownTable?_iff,
    isSome_ownTable?_iff, or_assoc]
  refine or_congr_right ⟨?_, ?_⟩
  · rintro (⟨tables, hget, key, hkey⟩ | ⟨tables, hget, key, hkey⟩)
    · exact ⟨tables, .middleware, key, hget, hkey⟩
    · exact ⟨tables, .routes, key, hget, hkey⟩
  · rintro ⟨tables, kind, key, hget, hkey⟩
    cases kind with
    | middleware => exact Or.inl ⟨tables, hget, key, hkey⟩
    | routes => exact Or.inr ⟨tables, hget, key, hkey⟩

theorem tableEntries_allMethods (builder : Builder α) (kind : TableKind) :
    builder.tableEntries allMethods kind =
      (builder.tables.get? allMethods).elim [] fun tables => (tables.table kind).entries := by
  rw [tableEntries]
  cases hown : builder.ownTable? allMethods kind with
  | none => rfl
  | some own =>
      obtain ⟨tables, hget, rfl⟩ := ownTable?_eq_some hown
      rw [hget, Option.elim_some]

theorem tableEntries_of_none {method : Method} {kind : TableKind}
    (h : builder.ownTable? method kind = none) :
    builder.tableEntries method kind = builder.tableEntries allMethods kind := by
  rw [tableEntries_allMethods, tableEntries, h]

theorem entriesOf_of_not_hasOwnMatcher {method : Method}
    (h : builder.hasOwnMatcher method = false) :
    builder.entriesOf method = builder.entriesOf allMethods := by
  rw [hasOwnMatcher] at h
  simp only [Bool.or_eq_false_iff, Option.isSome_eq_false_iff, Option.isNone_iff_eq_none] at h
  obtain ⟨⟨-, hmiddleware⟩, hroutes⟩ := h
  rw [entriesOf, entriesOf, tableEntries_of_none hmiddleware, tableEntries_of_none hroutes]

theorem entriesOf_of_get?_eq_none {method : Method} (h : builder.tables.get? method = none) :
    builder.entriesOf method = builder.entriesOf allMethods := by
  have hown (kind : TableKind) : builder.ownTable? method kind = none := by
    rw [ownTable?, h]
    rfl
  rw [entriesOf, entriesOf, tableEntries_of_none (hown _), tableEntries_of_none (hown _)]

variable [SizeRule]

theorem WellFormed.withConfig (h : builder.WellFormed) (config : Config) :
    (builder.withConfig config).WellFormed :=
  h.withSettings config builder.expander

/-- A table that a method leaves empty is empty for all methods as well. -/
theorem WellFormed.tableEntries_eq (h : builder.WellFormed) {method : Method}
    {tables : MethodTables} (hget : builder.tables.get? method = some tables) (kind : TableKind) :
    builder.tableEntries method kind = (tables.table kind).entries := by
  cases hown : builder.ownTable? method kind with
  | some own =>
      obtain ⟨tables', hget', rfl⟩ := ownTable?_eq_some hown
      rw [hget, Option.some.injEq] at hget'
      rw [tableEntries, hown, hget']
  | none =>
      have hempty : (tables.table kind).entries = [] := by
        rw [ownTable?, hget, Option.map_some, Option.filter_eq_none_iff] at hown
        simpa [OrderedMap.isEmpty] using hown
      obtain ⟨shared, hshared, hsub⟩ := h.shared
      have hkeys : (shared.table kind).keys = [] := by
        apply List.eq_nil_iff_forall_not_mem.2
        intro key hkey
        have hmem := hsub method tables hget kind key hkey
        rw [OrderedMap.keys, hempty] at hmem
        cases hmem
      rw [tableEntries_of_none hown, tableEntries_allMethods, hshared, Option.elim_some, hempty]
      exact List.map_eq_nil_iff.1 hkeys

/-- The entries of a method are those of its tables, be they its own or the ones for all methods. -/
theorem WellFormed.entriesOf_eq (h : builder.WellFormed) {method : Method} {tables : MethodTables}
    (hget : builder.tablesFor method method = some tables) :
    builder.entriesOf method = tables.entries := by
  rw [tablesFor, if_pos rfl, Option.some.injEq] at hget
  cases hown : builder.tables.get? method with
  | some own =>
      rw [hown, Option.getD_some] at hget
      rw [hget] at hown
      rw [entriesOf, h.tableEntries_eq hown, h.tableEntries_eq hown]
      rfl
  | none =>
      obtain ⟨shared, hshared, -⟩ := h.shared
      rw [hown, hshared, Option.getD_none, Option.getD_some] at hget
      rw [hget] at hshared
      rw [entriesOf_of_get?_eq_none hown, entriesOf, h.tableEntries_eq hshared,
        h.tableEntries_eq hshared]
      rfl

/-! ### Matchers -/

/-- A matcher is built for just the methods that get one of their own. -/
theorem matcherFor_eq_ok {method : Method} {result : Option Matcher}
    (h : (builder.matcherFor method).run log = .ok result log') :
    (builder.hasOwnMatcher method = false ∧ result = none) ∨
      (builder.hasOwnMatcher method = true ∧ ∃ matcher, result = some matcher ∧
        Matcher.build builder.config (builder.entriesOf method) = .ok matcher) := by
  rw [matcherFor] at h
  cases hown : builder.hasOwnMatcher method with
  | false =>
      rw [hown] at h
      cases h
      exact Or.inl ⟨rfl, rfl⟩
  | true =>
      rw [hown] at h
      obtain ⟨⟨⟩, log₁, -, h⟩ := run_bind_eq_ok.1 h
      cases hbuild : Matcher.build builder.config (builder.entriesOf method) with
      | error e =>
          rw [hbuild] at h
          cases h
      | ok matcher =>
          rw [hbuild] at h
          refine Or.inr ⟨rfl, matcher, ?_, rfl⟩
          -- only the log depends on whether there are entries
          cases hempty : (builder.entriesOf method).isEmpty with
          | true =>
              simp only [hempty] at h
              cases h
              rfl
          | false =>
              simp only [hempty] at h
              cases h
              rfl

theorem matcherEntry_eq_ok {fallback : Matcher}
    (hfallback : Matcher.build builder.config (builder.entriesOf allMethods) = .ok fallback)
    {method : Method} {entry : Method × Option Matcher}
    (h : (builder.matcherEntry method).run log = .ok entry log') :
    method = entry.1 ∧ Matcher.build builder.config (builder.entriesOf method) =
      .ok (entry.2.getD fallback) := by
  rw [matcherEntry] at h
  split at h
  · next hall =>
      cases h
      rw [hall]
      exact ⟨rfl, hfallback⟩
  · obtain ⟨result, log₁, hresult, h⟩ := run_bind_eq_ok.1 h
    cases h
    refine ⟨rfl, ?_⟩
    rcases matcherFor_eq_ok hresult with ⟨hnot, rfl⟩ | ⟨-, matcher, rfl, hbuild⟩
    · rw [entriesOf_of_not_hasOwnMatcher hnot]
      exact hfallback
    · exact hbuild

/-- Every method, known or not, gets the matcher of its entries. -/
theorem compile_eq_ok (hmethods : ∀ method ∈ builder.tables.keys, method ∈ builder.methods)
    {matchers : OrderedMap Method Matcher} {fallback : Matcher}
    (h : builder.compile.run log = .ok (matchers, fallback) log') (method : Method) :
    Matcher.build builder.config (builder.entriesOf method) =
      .ok ((matchers.get? method).getD fallback) := by
  rw [compile] at h
  obtain ⟨shared, log₁, hshared, h⟩ := run_bind_eq_ok.1 h
  obtain ⟨own, log₂, hown, h⟩ := run_bind_eq_ok.1 h
  obtain ⟨⟨⟩, log₃, -, h⟩ := run_bind_eq_ok.1 h
  cases h
  have hfallback : Matcher.build builder.config (builder.entriesOf allMethods) =
      .ok (shared.getD {}) := by
    rcases matcherFor_eq_ok hshared with ⟨hnot, -⟩ | ⟨-, matcher, rfl, hbuild⟩
    · simp [hasOwnMatcher] at hnot
    · exact hbuild
  have hentries := (forall₂_of_run_mapM_eq_ok hown).imp fun method entry ⟨_, _, hstep⟩ =>
    matcherEntry_eq_ok hfallback hstep
  apply OrderedMap.getD_ofList (P := fun method matcher =>
    Matcher.build builder.config (builder.entriesOf method) = .ok matcher)
  · intro pair hpair
    obtain ⟨entry, hentry, rfl⟩ := List.mem_map.1 hpair
    obtain ⟨i, hi⟩ := List.getElem?_of_mem hentry
    obtain ⟨method, -, rfl, hbuild⟩ := exists_getElem?_of_forall₂ hentries.flip hi
    exact hbuild
  · -- a method that is not listed has no tables, so the matcher for all methods is the right one
    intro hunlisted
    rw [entriesOf_of_get?_eq_none, hfallback]
    rw [OrderedMap.get?_eq_none_iff]
    intro hmem
    obtain ⟨i, hi⟩ := List.getElem?_of_mem (hmethods method hmem)
    obtain ⟨entry, hentry, rfl, -⟩ := exists_getElem?_of_forall₂ hentries hi
    apply hunlisted
    rw [List.map_map]
    exact List.mem_map_of_mem (List.mem_of_getElem? hentry)

theorem freeze_eq_ok (hmethods : ∀ method ∈ builder.tables.keys, method ∈ builder.methods)
    {router : FrozenRouter α} (h : builder.freeze.run log = .ok router log') :
    router.handlers = builder.handlers ∧ ∀ method,
      Matcher.build builder.config (builder.entriesOf method) = .ok (router.matcherOf method) := by
  rw [freeze] at h
  obtain ⟨⟨matchers, fallback⟩, log₁, hcompile, h⟩ := run_bind_eq_ok.1 h
  cases h
  exact ⟨rfl, compile_eq_ok hmethods hcompile⟩

theorem exists_run_matcherFor {method : Method}
    (h : ∃ matcher, Matcher.build builder.config (builder.entriesOf method) = .ok matcher)
    (log : Log) : ∃ result log', (builder.matcherFor method).run log = .ok result log' := by
  obtain ⟨matcher, hbuild⟩ := h
  rw [matcherFor]
  cases builder.hasOwnMatcher method with
  | false => exact ⟨none, log, rfl⟩
  | true =>
      refine ⟨some matcher, ?_⟩
      simp only [Bool.not_true, Bool.false_eq_true, if_false, hbuild]
      cases (builder.entriesOf method).isEmpty with
      | true => exact ⟨_, rfl⟩
      | false => exact ⟨_, rfl⟩

theorem matcherFor_eq_error {method : Method} (hown : builder.hasOwnMatcher method = true)
    {e : RouterError}
    (h : Matcher.build builder.config (builder.entriesOf method) = .error e) (log : Log) :
    ∃ log', (builder.matcherFor method).run log = .error e log' := by
  rw [matcherFor, hown]
  simp only [Bool.not_true, Bool.false_eq_true, if_false, h]
  exact ⟨_, rfl⟩

theorem exists_run_freeze
    (h : ∀ method, ∃ matcher,
      Matcher.build builder.config (builder.entriesOf method) = .ok matcher) (log : Log) :
    ∃ router log', builder.freeze.run log = .ok router log' := by
  obtain ⟨shared, log₁, hshared⟩ := exists_run_matcherFor (h allMethods) log
  have hentry (method : Method) (log : Log) :
      ∃ entry log', (builder.matcherEntry method).run log = .ok entry log' := by
    rw [matcherEntry]
    split
    · exact ⟨_, log, rfl⟩
    · obtain ⟨result, log', hresult⟩ := exists_run_matcherFor (h method) log
      exact ⟨_, log', run_bind_of_ok hresult⟩
  obtain ⟨own, log₂, hown⟩ :=
    exists_run_mapM_of_forall (fun method (_ : method ∈ builder.methods) => hentry method) log₁
  have hcompile : builder.compile.run log = _ :=
    (run_bind_of_ok hshared).trans (run_bind_of_ok hown)
  exact ⟨_, _, run_bind_of_ok hcompile⟩

end Builder

end PathRouter
