import PathRouter.Proofs.Builder.Tables

/-!
A registration as one change of the builder. From a well-formed builder nothing fails once the
wildcard itself has been compiled, and the tables of the methods that are registered with are
changed one by one, none with regard to another. The loops over methods and paths go through a
family of builders, one for each method that is done.
-/

namespace PathRouter

namespace Builder

variable {α : Type} {builder : Builder α}

def onTables (methods : List Method) (f : MethodTables → MethodTables) (builder : Builder α) :
    Builder α :=
  { builder with
    tables := builder.tables.update fun method tables =>
      if method ∈ methods then f tables else tables }

/-! ### Changes of tables -/

@[simp] theorem keys_onTables (methods : List Method) (f : MethodTables → MethodTables) :
    (builder.onTables methods f).tables.keys = builder.tables.keys :=
  OrderedMap.keys_update ..

theorem get?_onTables (methods : List Method) (f : MethodTables → MethodTables) (method : Method) :
    (builder.onTables methods f).tables.get? method = (builder.tables.get? method).map fun tables =>
      if method ∈ methods then f tables else tables :=
  OrderedMap.get?_update ..

theorem onTables_nil (f : MethodTables → MethodTables) : builder.onTables [] f = builder := by
  simp [onTables, OrderedMap.update_self]

theorem onTables_concat {done : List Method} {method : Method} (h : method ∉ done)
    (f : MethodTables → MethodTables) :
    (builder.onTables done f).onTables [method] f = builder.onTables (done ++ [method]) f := by
  unfold onTables
  rw [OrderedMap.update_update]
  congr 2
  funext other tables
  simp only [List.mem_append, List.mem_singleton]
  by_cases hother : other = method
  · rw [if_pos hother, if_neg fun hdone => h (hother ▸ hdone), if_pos (Or.inr hother)]
  · simp only [hother, if_false, or_false]

theorem onTables_onTables (methods : List Method) (f g : MethodTables → MethodTables) :
    (builder.onTables methods f).onTables methods g =
      builder.onTables methods fun tables => g (f tables) := by
  unfold onTables
  rw [OrderedMap.update_update]
  congr 2
  funext method tables
  split <;> rfl

theorem run_modifyTables (method : Method) (f : MethodTables → MethodTables) :
    (modifyTables method f).run builder = .ok () (builder.onTables [method] f) := by
  simp only [onTables, List.mem_singleton]
  rfl

theorem run_propagate (path : Path) (wildcard : Wildcard) (id : HandlerId) (method : Method) :
    (propagate path wildcard id method).run builder =
      .ok (.propagated method path ((builder.tables.get? method).elim 0 (·.coverage wildcard)))
        (builder.onTables [method] (·.attach wildcard id)) := by
  show EStateM.run (modifyTables method (·.attach wildcard id) >>= fun _ =>
    pure (Event.propagated method path _)) builder = _
  rw [run_bind_of_ok (run_modifyTables ..)]
  rfl

/-! ### Loops over methods -/

section Loops

variable {methods : List Method} {f : MethodTables → MethodTables}

theorem step_onTables (hnodup : methods.Nodup) {before after : List Method} {method : Method}
    (hsplit : methods = before ++ method :: after) : method ∈ methods ∧ method ∉ before := by
  rw [hsplit] at hnodup ⊢
  refine ⟨by simp, fun hmem => ?_⟩
  exact (List.nodup_append.1 hnodup).2.2 method hmem method List.mem_cons_self rfl

theorem run_forM_onTables (hnodup : methods.Nodup) {act : Method → Registration α Unit}
    (hstep : ∀ done method, method ∈ methods → method ∉ done →
      (act method).run (builder.onTables done f) =
        .ok () ((builder.onTables done f).onTables [method] f)) :
    (methods.forM act).run builder = .ok () (builder.onTables methods f) := by
  have hloop : (methods.forM act).run (builder.onTables [] f) =
      .ok () (builder.onTables methods f) := by
    apply run_forM fun done => builder.onTables done f
    intro before method after hsplit
    obtain ⟨hmem, hnew⟩ := step_onTables hnodup hsplit
    rw [hstep before method hmem hnew, onTables_concat hnew]
  rwa [onTables_nil] at hloop

theorem exists_run_mapM_onTables (hnodup : methods.Nodup) {β : Type}
    {act : Method → Registration α β}
    (hstep : ∀ done method, method ∈ methods → method ∉ done →
      ∃ result, (act method).run (builder.onTables done f) =
        .ok result ((builder.onTables done f).onTables [method] f)) :
    ∃ results, (methods.mapM act).run builder = .ok results (builder.onTables methods f) := by
  have hloop : ∃ results, (methods.mapM act).run (builder.onTables [] f) =
      .ok results (builder.onTables methods f) := by
    apply exists_run_mapM fun done => builder.onTables done f
    intro before method after hsplit
    obtain ⟨hmem, hnew⟩ := step_onTables hnodup hsplit
    obtain ⟨result, hresult⟩ := hstep before method hmem hnew
    exact ⟨result, by rw [hresult, onTables_concat hnew]⟩
  rwa [onTables_nil] at hloop

end Loops

/-! ### Seeding -/

variable [SizeRule]

/-- All middleware is cached, and the methods list the middleware of all methods, so a search for
the closest middleware succeeds and does not have to fall back. -/
structure Searchable (builder : Builder α) : Prop where
  cached : builder.wildcards.Sound
  nodup : builder.tables.keys.Nodup
  known : ∀ method tables, builder.tables.get? method = some tables →
    ∀ key ∈ tables.middleware.keys, key ∈ builder.wildcards.keys
  shared : ∃ shared, builder.tables.get? allMethods = some shared ∧ shared.middleware.keys.Nodup ∧
    ∀ method tables, builder.tables.get? method = some tables →
      ∀ key ∈ shared.middleware.keys, key ∈ tables.middleware.keys

theorem run_coveringChain (hcached : builder.wildcards.Sound) {method : Method}
    {tables : MethodTables} (hget : builder.tables.get? method = some tables)
    (hknown : ∀ key ∈ tables.middleware.keys, key ∈ builder.wildcards.keys) (path : Path) :
    (coveringChain method path).run builder = .ok (tables.middleware.closest path) builder := by
  have hfind : (WildcardCache.findMiddleware tables.middleware path).run builder.wildcards =
      .ok (tables.middleware.closest path) builder.wildcards := hcached.run_findMiddleware hknown
  rw [coveringChain, run_bind_of_ok (EStateM.run_get builder)]
  simp only [hget, withCache, EStateM.run] at hfind ⊢
  rw [hfind]

/-- A new path inherits from its own method alone, if falling back brings nothing. -/
theorem run_inheritedChain (hcached : builder.wildcards.Sound) {method : Method}
    {tables shared : MethodTables} (hget : builder.tables.get? method = some tables)
    (hshared : builder.tables.get? allMethods = some shared)
    (hknown : ∀ key, key ∈ tables.middleware.keys ∨ key ∈ shared.middleware.keys →
      key ∈ builder.wildcards.keys) {path : Path}
    (hnothing : tables.middleware.closest path = none → shared.inherited path = []) :
    (inheritedChain method path).run builder = .ok (tables.inherited path) builder := by
  have hown := run_coveringChain hcached hget (fun key hkey => hknown key (Or.inl hkey)) path
  have hall := run_coveringChain hcached hshared (fun key hkey => hknown key (Or.inr hkey)) path
  rw [inheritedChain, run_bind_of_ok hown, MethodTables.inherited]
  cases hclosest : tables.middleware.closest path with
  | some chain => rfl
  | none =>
      -- falling back finds no wildcard, or one without handlers
      have hshared := hnothing hclosest
      simp only [MethodTables.inherited] at hshared
      rw [run_bind_of_ok hall]
      cases hfallback : shared.middleware.closest path with
      | none => rfl
      | some chain =>
          rw [hfallback, Option.getD_some] at hshared
          rw [hshared]
          rfl

/-- No search for the chain that a path inherits fails, whatever the method and the path. -/
theorem Searchable.exists_run_inheritedChain (h : builder.Searchable) (method : Method)
    (path : Path) : ∃ chain, (inheritedChain method path).run builder = .ok chain builder := by
  have hcovering (method : Method) :
      ∃ found, (coveringChain method path).run builder = .ok found builder := by
    cases hget : builder.tables.get? method with
    | some tables => exact ⟨_, run_coveringChain h.cached hget (h.known method tables hget) path⟩
    | none =>
        refine ⟨none, ?_⟩
        rw [coveringChain, run_bind_of_ok (EStateM.run_get builder)]
        simp only [hget]
        rfl
  obtain ⟨own, hown⟩ := hcovering method
  obtain ⟨shared, hshared⟩ := hcovering allMethods
  rw [inheritedChain, run_bind_of_ok hown]
  cases own with
  | some chain => exact ⟨chain, rfl⟩
  | none =>
      rw [run_bind_of_ok hshared]
      cases shared with
      | some chain => exact ⟨chain, rfl⟩
      | none => exact ⟨[], rfl⟩

theorem run_seed (hnodup : builder.tables.keys.Nodup) {kind : TableKind} {path : Path}
    {method : Method} {tables : MethodTables} (hget : builder.tables.get? method = some tables)
    (hinherits : (inheritedChain method path).run builder = .ok (tables.inherited path) builder) :
    (seed kind path method).run builder =
      .ok () (builder.onTables [method] (·.seeded kind path)) := by
  show EStateM.run (if !((builder.tables.get? method).any fun tables =>
    (tables.table kind).contains path) then _ else _) builder = _
  rw [hget, Option.any_some]
  -- the change reads the tables of the method only, so it may as well be the one that is made there
  have hchange {f : MethodTables → MethodTables} (hf : tables.seeded kind path = f tables) :
      builder.onTables [method] (·.seeded kind path) = builder.onTables [method] f := by
    rw [onTables]
    congr 1
    apply OrderedMap.update_congr hnodup
    intro other others hothers
    split
    · next hother =>
        rw [List.mem_singleton.1 hother, hget] at hothers
        rw [← Option.some.inj hothers]
        exact hf
    · rfl
  cases hlisted : (tables.table kind).contains path with
  | true =>
      rw [hchange (f := id) (if_pos hlisted)]
      simp only [onTables, id, ite_self, OrderedMap.update_self]
      rfl
  | false =>
      rw [hchange (f := (·.modifyTable kind (·.set path (tables.inherited path))))
        (if_neg (by rw [hlisted]; decide))]
      show EStateM.run (inheritedChain method path >>= fun chain => _) builder = _
      rw [run_bind_of_ok hinherits]
      exact run_modifyTables ..

/-- A path can be seeded in one more method after others have been changed by `f`, if all that the
change may bring to their middleware is the path itself. -/
theorem Searchable.run_seed_after (h : builder.Searchable) (kind : TableKind) (path : Path)
    {f : MethodTables → MethodTables}
    (hkeys : ∀ tables : MethodTables, ∀ key ∈ (f tables).middleware.keys,
      key ∈ tables.middleware.keys ∨ key ∈ builder.wildcards.keys)
    (hnothing : ∀ tables : MethodTables, tables.middleware.keys.Nodup →
      (∀ key ∈ tables.middleware.keys, key.covers path = false) → (f tables).inherited path = [])
    {done : List Method} {method : Method} (hmethod : method ∈ builder.tables.keys)
    (hnew : method ∉ done) : (seed kind path method).run (builder.onTables done f) =
      .ok () ((builder.onTables done f).onTables [method] (·.seeded kind path)) := by
  obtain ⟨tables, hget⟩ := OrderedMap.exists_get?_of_mem_keys hmethod
  obtain ⟨shared, hshared, hshared_nodup, hsub⟩ := h.shared
  have hget' : (builder.onTables done f).tables.get? method = some tables := by
    rw [get?_onTables, hget, Option.map_some, if_neg hnew]
  have hshared' : (builder.onTables done f).tables.get? allMethods =
      some (if allMethods ∈ done then f shared else shared) := by
    rw [get?_onTables, hshared, Option.map_some]
  have hcached : (builder.onTables done f).wildcards.Sound := h.cached
  refine run_seed (by rw [keys_onTables]; exact h.nodup) hget' ?_
  apply run_inheritedChain hcached hget' hshared'
  · rintro key (hkey | hkey)
    · exact h.known method tables hget key hkey
    · split at hkey
      · rcases hkeys shared key hkey with hkey | hkey
        · exact h.known allMethods shared hshared key hkey
        · exact hkey
      · exact h.known allMethods shared hshared key hkey
  · -- the middleware of all methods is known to the method, so falling back brings nothing either
    intro hclosest
    have huncovered : ∀ key ∈ shared.middleware.keys, key.covers path = false := fun key hkey =>
      RouteTable.closest_eq_none_iff.1 hclosest key (hsub method tables hget key hkey)
    split
    · exact hnothing shared hshared_nodup huncovered
    · exact MethodTables.inherited_eq_nil huncovered

theorem Searchable.run_addMiddleware (h : builder.Searchable) {methods : List Method}
    (hmethods : ∀ method ∈ methods, method ∈ builder.tables.keys) (hnodup : methods.Nodup)
    {path : Path} (hpath : path ∈ builder.wildcards.keys) (wildcard : Wildcard) (id : HandlerId) :
    ∃ log, (addMiddleware methods path wildcard id).run builder = .ok log
      (builder.onTables methods fun tables =>
        (tables.seeded .middleware path).attach wildcard id) := by
  have hseeds : (methods.forM (seed .middleware path)).run builder =
      .ok () (builder.onTables methods (·.seeded .middleware path)) := by
    apply run_forM_onTables hnodup
    intro done method hmethod hnew
    refine h.run_seed_after .middleware path ?_ ?_ (hmethods method hmethod) hnew
    · intro tables key hkey
      have hmem : key ∈ ((tables.seeded .middleware path).table .middleware).keys := hkey
      rcases MethodTables.mem_keys_seeded.1 hmem with hkey | ⟨-, rfl⟩
      · exact Or.inl hkey
      · exact Or.inr hpath
    · intro tables hnodup huncovered
      exact MethodTables.inherited_seeded hnodup huncovered
  obtain ⟨log, hattach⟩ : ∃ log, (methods.mapM (propagate path wildcard id)).run
      (builder.onTables methods (·.seeded .middleware path)) = .ok log
        ((builder.onTables methods (·.seeded .middleware path)).onTables methods
          (·.attach wildcard id)) := by
    apply exists_run_mapM_onTables hnodup
    intro done method _ _
    exact ⟨_, run_propagate ..⟩
  refine ⟨log, ?_⟩
  rw [addMiddleware, run_bind_of_ok hseeds, hattach, onTables_onTables]

theorem Searchable.onTables (h : builder.Searchable) (methods : List Method)
    {f : MethodTables → MethodTables} (hf : ∀ tables, (f tables).middleware = tables.middleware) :
    (builder.onTables methods f).Searchable := by
  have hmiddleware {method : Method} {tables : MethodTables}
      (hget : (builder.onTables methods f).tables.get? method = some tables) :
      ∃ old, builder.tables.get? method = some old ∧ tables.middleware = old.middleware := by
    rw [get?_onTables, Option.map_eq_some_iff] at hget
    obtain ⟨old, hold, rfl⟩ := hget
    refine ⟨old, hold, ?_⟩
    split
    · exact hf old
    · rfl
  obtain ⟨shared, hshared, hnodup, hsub⟩ := h.shared
  obtain ⟨shared', hshared'⟩ : ∃ shared',
      (builder.onTables methods f).tables.get? allMethods = some shared' := by
    rw [get?_onTables, hshared]
    exact ⟨_, rfl⟩
  obtain ⟨old, hold, hsame⟩ := hmiddleware hshared'
  rw [hshared] at hold
  cases hold
  constructor
  case cached => exact h.cached
  case nodup =>
    rw [keys_onTables]
    exact h.nodup
  case known =>
    intro method tables hget key hkey
    obtain ⟨old, hold, hsame⟩ := hmiddleware hget
    exact h.known method old hold key (hsame ▸ hkey)
  case shared =>
    refine ⟨shared', hshared', hsame ▸ hnodup, ?_⟩
    intro method tables hget key hkey
    obtain ⟨old, hold, hkept⟩ := hmiddleware hget
    rw [hkept]
    exact hsub method old hold key (hsame ▸ hkey)

theorem Searchable.run_addRoute (h : builder.Searchable) {methods : List Method}
    (hmethods : ∀ method ∈ methods, method ∈ builder.tables.keys) (hnodup : methods.Nodup)
    (path : Path) (id : HandlerId) : (methods.forM (addRoute path id)).run builder =
      .ok () (builder.onTables methods fun tables => tables.routed id path) := by
  apply run_forM_onTables hnodup
  intro done method hmethod hnew
  have hseed := h.run_seed_after .routes path
    (f := fun tables => tables.routed id path) ?_ ?_ (hmethods method hmethod) hnew
  · rw [addRoute, run_bind_of_ok hseed, run_modifyTables, onTables_onTables]
    rfl
  · intro tables key hkey
    rw [MethodTables.middleware_routed] at hkey
    exact Or.inl hkey
  · intro tables _ huncovered
    rw [MethodTables.inherited, MethodTables.middleware_routed]
    exact MethodTables.inherited_eq_nil huncovered

theorem Searchable.run_addRoutes (h : builder.Searchable) {methods : List Method}
    (hmethods : ∀ method ∈ methods, method ∈ builder.tables.keys) (hnodup : methods.Nodup)
    (paths : List Path) (id : HandlerId) :
    (paths.forM fun path => methods.forM (addRoute path id)).run builder =
      .ok () (builder.onTables methods fun tables =>
        paths.foldl (MethodTables.routed id) tables) := by
  induction paths generalizing builder with
  | nil =>
      simp only [Builder.onTables, List.foldl_nil, ite_self, OrderedMap.update_self]
      rfl
  | cons path paths ih =>
      have hrest : (builder.onTables methods fun tables => tables.routed id path).Searchable :=
        h.onTables methods fun tables => MethodTables.middleware_routed id
      show EStateM.run (methods.forM (addRoute path id) >>= fun _ =>
        paths.forM fun path => methods.forM (addRoute path id)) builder = _
      rw [run_bind_of_ok (h.run_addRoute hmethods hnodup path id),
        ih hrest (by simpa using hmethods), onTables_onTables]
      rfl

end Builder

end PathRouter
