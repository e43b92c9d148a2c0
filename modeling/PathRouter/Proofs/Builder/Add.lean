import PathRouter.Proofs.Builder.Registration

/-!
What one registration does to a builder: the handler is stored at the end, the method becomes known
and gets tables of its own, and the tables of its targets are changed. A registration from a
well-formed builder fails only if its own wildcard does not compile, and then changes nothing; so
builders stay well-formed from one registration to the next.
-/

namespace PathRouter

/-- The wildcard that a path registers, if it registers one at all. -/
def Path.wildcard? [SizeRule] (path : Path) : Except RouterError (Option Wildcard) :=
  if path.isWildcard then (Wildcard.ofPath path).map some else .ok none

namespace Builder

variable {α : Type}

/-- The tables of a method when another one, or itself, has got tables of its own. -/
def tablesFor (builder : Builder α) (method other : Method) : Option MethodTables :=
  if other = method then
    some ((builder.tables.get? method).getD ((builder.tables.get? allMethods).getD {}))
  else builder.tables.get? other

theorem get?_empty {method : Method} {tables : MethodTables}
    (hget : ({} : Builder α).tables.get? method = some tables) : tables = {} := by
  have hone : ({} : Builder α).tables = ⟨[(allMethods, {})]⟩ := rfl
  rw [hone, OrderedMap.get?, OrderedMap.lookup_cons_eq_ite] at hget
  split at hget
  · exact (Option.some.inj hget).symm
  · cases hget

variable {builder : Builder α}

/-! ### The steps of a registration -/

theorem mem_targets {method other : Method} : other ∈ builder.targets method ↔
    other ∈ builder.tables.keys ∧ (method = allMethods ∨ other = method) := by
  rw [targets, (List.mergeSort_perm ..).mem_iff, List.mem_filter, decide_eq_true_eq]

theorem nodup_targets (h : builder.tables.keys.Nodup) (method : Method) :
    (builder.targets method).Nodup :=
  (List.mergeSort_perm ..).nodup_iff.2 (h.filter _)

theorem run_withCache {β : Type} {action : EStateM RouterError WildcardCache β} {result : β}
    {cache : WildcardCache} (h : action.run builder.wildcards = .ok result cache) :
    (withCache action).run builder = .ok result { builder with wildcards := cache } := by
  simp only [withCache, EStateM.run] at h ⊢
  rw [h]

theorem run_withCache_error {β : Type} {action : EStateM RouterError WildcardCache β}
    {e : RouterError} {cache : WildcardCache} (h : action.run builder.wildcards = .error e cache) :
    (withCache action).run builder = .error e { builder with wildcards := cache } := by
  simp only [withCache, EStateM.run] at h ⊢
  rw [h]

theorem run_store (handler : α) : (store handler).run builder =
    .ok builder.handlers.size { builder with handlers := builder.handlers.push handler } := rfl

theorem run_note (method : Method) : (note method).run builder = .ok () { builder with
    methods := if builder.methods.contains method then builder.methods
      else builder.methods ++ [method] } := by
  show EStateM.Result.ok () (if builder.methods.contains method then _ else _) = _
  split <;> rfl

def specialized (builder : Builder α) (method : Method) : OrderedMap Method MethodTables :=
  if builder.tables.contains method then builder.tables
  else builder.tables.set method ((builder.tables.get? allMethods).getD {})

theorem run_specialize (method : Method) : ∃ log, (specialize method).run builder =
    .ok log { builder with tables := builder.specialized method } := by
  rw [specialize, run_modifyGet, specialized]
  cases builder.tables.contains method with
  | true => exact ⟨_, rfl⟩
  | false => exact ⟨_, rfl⟩

theorem get?_specialized (method other : Method) :
    (builder.specialized method).get? other = builder.tablesFor method other := by
  unfold specialized tablesFor OrderedMap.contains
  cases hget : builder.tables.get? method with
  | none => rw [Option.isSome_none, if_neg (by decide), OrderedMap.get?_set, Option.getD_none]
  | some tables =>
      rw [Option.isSome_some, if_pos rfl, Option.getD_some]
      split
      · next hother => rw [hother, hget]
      · rfl

theorem keys_specialized (method : Method) : (builder.specialized method).keys =
    if method ∈ builder.tables.keys then builder.tables.keys
    else builder.tables.keys ++ [method] := by
  rw [specialized]
  by_cases hown : method ∈ builder.tables.keys
  · rw [if_pos ((OrderedMap.contains_iff_mem_keys ..).2 hown), if_pos hown]
  · rw [if_neg fun h => hown ((OrderedMap.contains_iff_mem_keys ..).1 h), OrderedMap.keys_set]

/-! ### Well-formed builders -/

variable [SizeRule]

/-- What holds between registrations: the cache is sound and has all middleware, no path is listed
twice, and every method lists what is listed for all methods. -/
structure WellFormed (builder : Builder α) : Prop where
  cached : builder.wildcards.Sound
  nodup : builder.tables.keys.Nodup
  known : ∀ method tables, builder.tables.get? method = some tables →
    ∀ key ∈ tables.middleware.keys, key ∈ builder.wildcards.keys
  tables_nodup : ∀ method tables, builder.tables.get? method = some tables →
    ∀ kind, (tables.table kind).keys.Nodup
  shared : ∃ shared, builder.tables.get? allMethods = some shared ∧
    ∀ method tables, builder.tables.get? method = some tables →
      ∀ kind, ∀ key ∈ (shared.table kind).keys, key ∈ (tables.table kind).keys

/-- One builder comes from the other by a registration. -/
structure Added (method : Method) (path : Path) (wildcard : Option Wildcard) (handler : α)
    (before after : Builder α) : Prop where
  handlers : after.handlers = before.handlers.push handler
  methods : after.methods =
    if before.methods.contains method then before.methods else before.methods ++ [method]
  expander : after.expander = before.expander
  config : after.config = before.config
  keys : after.tables.keys =
    if method ∈ before.tables.keys then before.tables.keys else before.tables.keys ++ [method]
  tables : ∀ other, after.tables.get? other =
    (before.tablesFor method other).map fun tables =>
      if method = allMethods ∨ other = method then
        tables.registered path wildcard (before.expander.paths path) before.handlers.size
      else tables
  cached : after.wildcards.Sound
  kept : ∀ key ∈ before.wildcards.keys, key ∈ after.wildcards.keys
  compiled : wildcard.isSome → path ∈ after.wildcards.keys

theorem wellFormed_empty : ({} : Builder α).WellFormed where
  cached := WildcardCache.sound_empty
  nodup := List.nodup_singleton allMethods
  known method tables hget key hkey := by
    rw [get?_empty hget] at hkey
    cases hkey
  tables_nodup method tables hget kind := by
    rw [get?_empty hget]
    cases kind <;> exact List.nodup_nil
  shared := by
    refine ⟨{}, rfl, fun method tables hget kind key hkey => ?_⟩
    cases kind <;> cases hkey

/-- Whatever tables a method gets, they are those of some method already. -/
theorem WellFormed.exists_source (h : builder.WellFormed) {method other : Method}
    {tables : MethodTables} (hget : builder.tablesFor method other = some tables) :
    ∃ source, builder.tables.get? source = some tables := by
  obtain ⟨shared, hshared, -⟩ := h.shared
  rw [tablesFor] at hget
  split at hget
  · cases hown : builder.tables.get? method with
    | none =>
        rw [hown, hshared] at hget
        exact ⟨allMethods, hget ▸ hshared⟩
    | some own =>
        rw [hown] at hget
        exact ⟨method, hget ▸ hown⟩
  · exact ⟨other, hget⟩

theorem WellFormed.tablesFor_allMethods (h : builder.WellFormed) (method : Method) :
    builder.tablesFor method allMethods = builder.tables.get? allMethods := by
  obtain ⟨shared, hshared, -⟩ := h.shared
  rw [tablesFor]
  split
  · next hall =>
      rw [← hall, hshared]
      rfl
  · rfl

theorem WellFormed.searchable_specialized (h : builder.WellFormed) (handlers : Array α)
    (methods : List Method) (method : Method) {cache : WildcardCache} (hcache : cache.Sound)
    (hkept : ∀ key ∈ builder.wildcards.keys, key ∈ cache.keys) :
    Searchable { builder with
      handlers, methods, tables := builder.specialized method, wildcards := cache } := by
  obtain ⟨shared, hshared, hsub⟩ := h.shared
  constructor
  case cached => exact hcache
  case nodup =>
    show (builder.specialized method).keys.Nodup
    rw [specialized]
    split
    · exact h.nodup
    · exact OrderedMap.nodup_keys_set h.nodup ..
  case known =>
    intro other tables hget key hkey
    rw [get?_specialized] at hget
    obtain ⟨source, hsource⟩ := h.exists_source hget
    exact hkept key (h.known source tables hsource key hkey)
  case shared =>
    refine ⟨shared, ?_, h.tables_nodup _ _ hshared .middleware, ?_⟩
    · rw [get?_specialized, h.tablesFor_allMethods, hshared]
    · intro other tables hget
      rw [get?_specialized] at hget
      obtain ⟨source, hsource⟩ := h.exists_source hget
      exact hsub source tables hsource .middleware

theorem Searchable.run_register (h : builder.Searchable) {methods : List Method}
    (hmethods : ∀ method ∈ methods, method ∈ builder.tables.keys) (hnodup : methods.Nodup)
    {path : Path} {wildcard : Option Wildcard}
    (hpath : wildcard.isSome → path ∈ builder.wildcards.keys) (id : HandlerId) :
    ∃ log, (register methods path wildcard id).run builder = .ok log (builder.onTables methods
      (MethodTables.registered path wildcard (builder.expander.paths path) id)) := by
  cases wildcard with
  | some wildcard => exact h.run_addMiddleware hmethods hnodup (hpath rfl) wildcard id
  | none =>
      refine ⟨[], ?_⟩
      show EStateM.run (((builder.expander.paths path).forM fun path =>
        methods.forM (addRoute path id)) >>= fun _ => pure []) builder = _
      rw [run_bind_of_ok (h.run_addRoutes hmethods hnodup _ id)]
      rfl

/-! ### The whole registration -/

theorem WellFormed.run_compile (h : builder.WellFormed) {path : Path} {wildcard : Option Wildcard}
    (hwildcard : path.wildcard? = .ok wildcard) :
    ∃ cache, (if path.isWildcard then some <$> withCache (WildcardCache.wildcard path)
        else pure none : Registration α _).run builder =
          .ok wildcard { builder with wildcards := cache } ∧
      cache.Sound ∧ (∀ key ∈ builder.wildcards.keys, key ∈ cache.keys) ∧
      (wildcard.isSome → path ∈ cache.keys) := by
  rw [Path.wildcard?] at hwildcard
  split at hwildcard
  · next hwild =>
      cases hok : Wildcard.ofPath path with
      | error e =>
          rw [hok] at hwildcard
          cases hwildcard
      | ok compiled =>
          rw [hok] at hwildcard
          cases hwildcard
          obtain ⟨cache, hrun, hsound, hpath, hkept⟩ := h.cached.run_wildcard hok
          refine ⟨cache, ?_, hsound, hkept, fun _ => hpath⟩
          rw [if_pos hwild, map_eq_pure_bind, run_bind_of_ok (run_withCache hrun)]
          rfl
  · next hwild =>
      cases hwildcard
      exact ⟨builder.wildcards, by rw [if_neg hwild]; rfl, h.cached, fun _ hkey => hkey,
        fun hsome => by cases hsome⟩

/-- The first part of a registration: the wildcard is compiled, if the path is one, the handler is
stored, and the method becomes known and gets tables of its own. -/
def prepare (method : Method) (path : Path) (handler : α) :
    Registration α (Option Wildcard × HandlerId × Log) := do
  let wildcard ←
    if path.isWildcard then some <$> withCache (WildcardCache.wildcard path) else pure none
  let id ← store handler
  note method
  let specialized ← specialize method
  return (wildcard, id, specialized)

/-- A registration compiles its wildcard before it does anything else. -/
theorem prepare_eq_bind (method : Method) (path : Path) (handler : α) :
    prepare method path handler =
      (if path.isWildcard then some <$> withCache (WildcardCache.wildcard path)
        else pure none) >>= fun wildcard => do
          let id ← store handler
          note method
          let specialized ← specialize method
          return (wildcard, id, specialized) := by
  rw [prepare]
  cases path.isWildcard with
  | true => simp only [if_true]
  | false => simp only [Bool.false_eq_true, if_false]

/-- All that can fail besides the wildcard comes after the handler has been stored. -/
theorem add_eq_bind (method : Method) (path : Path) (handler : α) : add method path handler =
    prepare method path.canonical handler >>= fun (wildcard, id, specialized) => do
      let propagated ← register ((← get).targets method) path.canonical wildcard id
      return specialized ++ propagated := by
  rw [add, prepare]
  cases path.canonical.isWildcard with
  | true => simp only [if_true, bind_assoc, pure_bind]
  | false => simp only [Bool.false_eq_true, if_false, bind_assoc, pure_bind]

/-- Whatever is searched for middleware after the first part of a registration, it is found without
compiling anything. -/
theorem WellFormed.run_prepare (h : builder.WellFormed) (method : Method) {path : Path}
    {wildcard : Option Wildcard} (hwildcard : path.wildcard? = .ok wildcard) (handler : α) :
    ∃ specialized cache,
      let prepared : Builder α := { builder with
        handlers := builder.handlers.push handler
        methods := if builder.methods.contains method then builder.methods
          else builder.methods ++ [method]
        tables := builder.specialized method
        wildcards := cache }
      (prepare method path handler).run builder =
          .ok (wildcard, builder.handlers.size, specialized) prepared ∧
        prepared.Searchable ∧ (∀ key ∈ builder.wildcards.keys, key ∈ cache.keys) ∧
        (wildcard.isSome → path ∈ cache.keys) := by
  obtain ⟨cache, hcompile, hcache, hkept, hpath⟩ := h.run_compile hwildcard
  let stored : Builder α := { builder with
    handlers := builder.handlers.push handler
    methods := if builder.methods.contains method then builder.methods
      else builder.methods ++ [method]
    wildcards := cache }
  obtain ⟨specialized, hspecialize⟩ : ∃ log, (specialize method).run stored =
      .ok log { stored with tables := builder.specialized method } := run_specialize method
  refine ⟨specialized, cache, ?_, h.searchable_specialized _ _ method hcache hkept, hkept, hpath⟩
  rw [prepare_eq_bind, run_bind_of_ok hcompile, run_bind_of_ok (run_store handler),
    run_bind_of_ok (run_note method), run_bind_of_ok hspecialize]
  rfl

theorem WellFormed.exists_run_add (h : builder.WellFormed) (method : Method) {path : Path}
    {wildcard : Option Wildcard} (hwildcard : path.canonical.wildcard? = .ok wildcard)
    (handler : α) : ∃ log after, (add method path handler).run builder = .ok log after ∧
      Added method path.canonical wildcard handler builder after := by
  obtain ⟨specialized, cache, hprepare, hprepared, hkept, hpath⟩ :=
    h.run_prepare method hwildcard handler
  let base : Builder α := { builder with
    handlers := builder.handlers.push handler
    methods := if builder.methods.contains method then builder.methods
      else builder.methods ++ [method]
    tables := builder.specialized method
    wildcards := cache }
  have hbase : base.Searchable := hprepared
  have hbelongs : ∀ other ∈ base.targets method, other ∈ base.tables.keys := fun other hother =>
    (mem_targets.1 hother).1
  obtain ⟨propagated, hregister⟩ := hbase.run_register hbelongs (nodup_targets hbase.nodup method)
    hpath builder.handlers.size
  refine ⟨specialized ++ propagated, base.onTables (base.targets method) (MethodTables.registered
    path.canonical wildcard (base.expander.paths path.canonical) builder.handlers.size), ?_, ?_⟩
  · rw [add_eq_bind, run_bind_of_ok hprepare]
    show EStateM.run (register (base.targets method) path.canonical wildcard
      builder.handlers.size >>= fun propagated => pure (specialized ++ propagated)) base = _
    rw [run_bind_of_ok hregister]
    rfl
  · constructor
    case handlers => rfl
    case methods => rfl
    case expander => rfl
    case config => rfl
    case keys => rw [keys_onTables, ← keys_specialized]
    case cached => exact hbase.cached
    case kept => exact hkept
    case compiled => exact hpath
    case tables =>
      intro other
      rw [get?_onTables, ← get?_specialized]
      show (base.tables.get? other).map _ = (base.tables.get? other).map _
      cases hget : base.tables.get? other with
      | none => rfl
      | some tables =>
          have htarget : other ∈ base.targets method ↔ method = allMethods ∨ other = method := by
            rw [mem_targets]
            exact and_iff_right (OrderedMap.mem_keys_of_get? hget)
          simp only [Option.map_some, htarget]
          rfl

theorem WellFormed.run_prepare_error (h : builder.WellFormed) (method : Method) {path : Path}
    {e : RouterError} (herror : path.wildcard? = .error e) (handler : α) :
    (prepare method path handler).run builder = .error e builder := by
  rw [Path.wildcard?] at herror
  split at herror
  · next hwild =>
      cases hok : Wildcard.ofPath path with
      | ok compiled =>
          rw [hok] at herror
          cases herror
      | error _ =>
          rw [hok] at herror
          cases herror
          have hcompile := run_withCache_error (h.cached.run_wildcard_error hok)
          rw [prepare_eq_bind, if_pos hwild, map_eq_pure_bind]
          exact run_bind_of_error (run_bind_of_error hcompile)
  · cases herror

/-- A registration whose wildcard does not compile fails, and leaves the builder as it was. -/
theorem WellFormed.run_add_error (h : builder.WellFormed) (method : Method) {path : Path}
    {e : RouterError} (herror : path.canonical.wildcard? = .error e) (handler : α) :
    (add method path handler).run builder = .error e builder := by
  rw [add_eq_bind]
  exact run_bind_of_error (h.run_prepare_error method herror handler)

theorem WellFormed.added_of_run (h : builder.WellFormed) {method : Method} {path : Path}
    {handler : α} {log : Log} {after : Builder α}
    (hrun : (add method path handler).run builder = .ok log after) :
    ∃ wildcard, path.canonical.wildcard? = .ok wildcard ∧
      Added method path.canonical wildcard handler builder after := by
  cases hwildcard : path.canonical.wildcard? with
  | error e =>
      rw [h.run_add_error method hwildcard handler] at hrun
      cases hrun
  | ok wildcard =>
      obtain ⟨log', after', hrun', hadded⟩ := h.exists_run_add method hwildcard handler
      rw [hrun] at hrun'
      cases hrun'
      exact ⟨wildcard, rfl, hadded⟩

theorem WellFormed.eq_of_run_error (h : builder.WellFormed) {method : Method} {path : Path}
    {handler : α} {e : RouterError} {after : Builder α}
    (hrun : (add method path handler).run builder = .error e after) : after = builder := by
  cases hwildcard : path.canonical.wildcard? with
  | error e =>
      rw [h.run_add_error method hwildcard handler] at hrun
      cases hrun
      rfl
  | ok wildcard =>
      obtain ⟨log', after', hrun', -⟩ := h.exists_run_add method hwildcard handler
      rw [hrun] at hrun'
      cases hrun'

/-! ### Builders stay well-formed -/

theorem WellFormed.withSettings (h : builder.WellFormed) (config : Config) (expander : Expander) :
    WellFormed { builder with config, expander } :=
  ⟨h.cached, h.nodup, h.known, h.tables_nodup, h.shared⟩

section

variable {method : Method} {path : Path} {wildcard : Option Wildcard} {handler : α}
  {after : Builder α}

/-- The methods with tables of their own after a registration: those before it, and its own. -/
theorem Added.mem_keys (hadded : Added method path wildcard handler builder after)
    {other : Method} :
    other ∈ after.tables.keys ↔ other ∈ builder.tables.keys ∨ other = method := by
  rw [hadded.keys]
  split
  · next hmem => exact ⟨Or.inl, fun hor => hor.elim id fun heq => heq ▸ hmem⟩
  · rw [List.mem_append, List.mem_singleton]

theorem Added.mem_methods (hadded : Added method path wildcard handler builder after)
    {other : Method} : other ∈ after.methods ↔ other ∈ builder.methods ∨ other = method := by
  rw [hadded.methods]
  split
  · next hmem =>
      rw [List.contains_iff_mem] at hmem
      exact ⟨Or.inl, fun hor => hor.elim id fun heq => heq ▸ hmem⟩
  · rw [List.mem_append, List.mem_singleton]

theorem Added.exists_source (hadded : Added method path wildcard handler builder after)
    (h : builder.WellFormed) {other : Method} {tables : MethodTables}
    (hget : after.tables.get? other = some tables) :
    ∃ source old, builder.tables.get? source = some old ∧ tables =
      if method = allMethods ∨ other = method then
        old.registered path wildcard (builder.expander.paths path) builder.handlers.size
      else old := by
  rw [hadded.tables, Option.map_eq_some_iff] at hget
  obtain ⟨old, hold, rfl⟩ := hget
  obtain ⟨source, hsource⟩ := h.exists_source hold
  exact ⟨source, old, hsource, rfl⟩

theorem Added.mem_middleware (hadded : Added method path wildcard handler builder after)
    (h : builder.WellFormed) {other : Method} {tables : MethodTables}
    (hget : after.tables.get? other = some tables) {key : Path}
    (hkey : key ∈ tables.middleware.keys) :
    (∃ source old, builder.tables.get? source = some old ∧ key ∈ old.middleware.keys) ∨
      (wildcard.isSome ∧ key = path) := by
  obtain ⟨source, old, hsource, rfl⟩ := hadded.exists_source h hget
  split at hkey
  · have hmem : key ∈ ((old.registered path wildcard (builder.expander.paths path)
      builder.handlers.size).table .middleware).keys := hkey
    rcases MethodTables.mem_keys_registered.1 hmem with hold | hnew
    · exact Or.inl ⟨source, old, hsource, hold⟩
    · split at hnew
      · next hsome => exact Or.inr ⟨hsome, hnew.2⟩
      · cases hnew.1
  · exact Or.inl ⟨source, old, hsource, hkey⟩

theorem Added.wellFormed (hadded : Added method path wildcard handler builder after)
    (h : builder.WellFormed) : after.WellFormed := by
  constructor
  case cached => exact hadded.cached
  case nodup =>
    rw [hadded.keys]
    split
    · exact h.nodup
    · next hnew => exact List.nodup_append.2 ⟨h.nodup, List.nodup_singleton _, by grind⟩
  case known =>
    intro other tables hget key hkey
    rcases hadded.mem_middleware h hget hkey with ⟨source, old, hsource, hold⟩ | ⟨hsome, rfl⟩
    · exact hadded.kept key (h.known source old hsource key hold)
    · exact hadded.compiled hsome
  case tables_nodup =>
    intro other tables hget kind
    obtain ⟨source, old, hsource, rfl⟩ := hadded.exists_source h hget
    split
    · exact MethodTables.nodup_keys_registered (h.tables_nodup source old hsource kind)
    · exact h.tables_nodup source old hsource kind
  case shared =>
    obtain ⟨shared, hshared, hsub⟩ := h.shared
    refine ⟨_, by rw [hadded.tables, h.tablesFor_allMethods, hshared, Option.map_some], ?_⟩
    intro other tables hget kind key hkey
    obtain ⟨source, old, hsource, rfl⟩ := hadded.exists_source h hget
    by_cases hall : method = allMethods
    · -- all tables are changed in the same way
      simp only [hall, true_or, if_true] at hkey ⊢
      rw [MethodTables.mem_keys_registered] at hkey ⊢
      exact hkey.imp_left (hsub source old hsource kind key)
    · simp only [hall, Ne.symm hall, or_self, if_false, false_or] at hkey ⊢
      have hmem := hsub source old hsource kind key hkey
      split
      · exact MethodTables.mem_keys_registered.2 (Or.inl hmem)
      · exact hmem

end

end Builder

end PathRouter
