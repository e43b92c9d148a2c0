import PathRouter.Proofs.Builder.Chains
import PathRouter.Proofs.Builder.Freeze
import PathRouter.Proofs.Matcher.Covered

/-!
Wildcards as guards. Whether a wildcard covers a path is decided when the path is registered, on the
path as it is written, while the answer to a request is decided by the composite pattern, on the
request. The two agree: a request that a wildcard covers goes to an entry that the wildcard covers,
and the chain of that entry has the handler of the wildcard.
-/

namespace PathRouter

section

variable [SizeRule]

namespace MethodTables

variable {tables : MethodTables} {adds : List (Path × HandlerId)}

theorem Holds.mem_entries_iff (h : tables.Holds adds) {e : Entry} :
    e ∈ tables.entries ↔ e.1 ∈ adds.map Prod.fst ∧ e.2 = chainOf adds e.1 := by
  have htable (kind : TableKind) : e ∈ (tables.table kind).entries ↔
      e.1.kind = kind ∧ e.1 ∈ adds.map Prod.fst ∧ e.2 = chainOf adds e.1 := by
    rw [← and_assoc, ← h.keys kind e.1]
    constructor
    · intro hmem
      have hget := (OrderedMap.mem_entries_iff (h.nodup kind)).1 hmem
      exact ⟨OrderedMap.mem_keys_of_get? hget, h.chains kind e.1 e.2 hget⟩
    · rintro ⟨hkey, hchain⟩
      obtain ⟨chain, hget⟩ := OrderedMap.exists_get?_of_mem_keys hkey
      rw [← h.chains kind e.1 chain hget] at hchain
      rw [← hchain] at hget
      exact (OrderedMap.mem_entries_iff (h.nodup kind)).2 hget
  have hmiddleware := htable .middleware
  have hroutes := htable .routes
  unfold table at hmiddleware hroutes
  rw [entries, List.mem_append, hmiddleware, hroutes]
  cases e.1.kind with
  | middleware => simp
  | routes => simp

/-- A matcher answers every path that a guard covers, and runs the handler of the guard. -/
theorem Holds.lookup_guarded (h : tables.Holds adds) (hsuffix : SuffixOnly adds)
    (hlines : ∀ add ∈ adds, '\n' ∉ add.1) {config : Config} {matcher : Matcher}
    (hbuild : Matcher.build config tables.entries = .ok matcher) {guard : Path} {id : HandlerId}
    (hguard : (guard, id) ∈ adds) (hwild : guard.isWildcard = true) (hcolon : ':' ∉ guard)
    {path : Path} (hline : '\n' ∉ path) (hcovers : guard.covers path = true) :
    ∃ chain params, matcher.lookup path = some (chain, params) ∧ id ∈ chain := by
  have hguard_suffix := hsuffix _ hguard hwild
  obtain ⟨hok, hcovered⟩ := Path.covers_iff.1 hcovers
  have hruns : ∀ key, guard.Covers key → id ∈ chainOf adds key := by
    intro key hkey
    refine mem_chainOf.2 ⟨guard, hguard, ?_⟩
    rw [Path.appliesTo, hwild, Path.covers_iff.2 ⟨hok, hkey⟩, Bool.and_true, Bool.or_true]
  obtain ⟨a, merged, hbuilt⟩ := Matcher.exists_built hbuild
  by_cases hstatic : ∃ e ∈ tables.entries, e.1.isStatic = true ∧ e.1 = path
  · -- the path is registered itself, and covered as it is written
    obtain ⟨e, he, hs, rfl⟩ := hstatic
    have hchain := (h.mem_entries_iff.1 he).2
    have hget := hbuilt.get?_statics hs he fun e' he' heq => by
      rw [(h.mem_entries_iff.1 he').2, heq, hchain]
    refine ⟨e.2, [], hbuilt.lookup_static hget, ?_⟩
    rw [hchain]
    exact hruns _ hcovered
  · -- the wildcard is an entry that matches the path, so some entry answers
    have hnone : a.statics.get? path = none :=
      hbuilt.get?_statics_eq_none.2 fun e he hs heq => hstatic ⟨e, he, hs, heq⟩
    have hentry : (guard, chainOf adds guard) ∈ tables.entries :=
      h.mem_entries_iff.2 ⟨List.mem_map_of_mem hguard, rfl⟩
    have hsome : (matcher.lookup path).isSome = true :=
      (hbuilt.isSome_lookup hnone).2 ⟨_, hentry, hguard_suffix.isStatic,
        hcovered.matches hguard_suffix hcolon hline⟩
    obtain ⟨⟨chain, params⟩, hlookup⟩ := Option.isSome_iff_exists.1 hsome
    obtain ⟨w, e, hfirst, he, -, rfl, hkeys, -⟩ := hbuilt.lookup_eq_some hnone hlookup
    obtain ⟨hpath, hchain⟩ := h.mem_entries_iff.1 he
    obtain ⟨add, hadd, hadd_path⟩ := List.mem_map.1 hpath
    refine ⟨e.2, params, hlookup, ?_⟩
    rw [hchain]
    apply hruns
    apply hbuilt.covers_answer hentry hguard_suffix hcolon hcovered hfirst hkeys
    rw [← hadd_path]
    exact hlines add hadd

end MethodTables

namespace FrozenRouter

variable {α : Type}

omit [SizeRule] in
theorem find_of_lookup {router : FrozenRouter α} {method : Method} {path : Path} {chain : Chain}
    {params : Params} (h : (router.matcherOf method).lookup path = some (chain, params)) :
    router.find method path = some { handlers := ⟨router.handlers, chain⟩, params } := by
  rw [find, h]
  rfl

end FrozenRouter

namespace Builder

variable {α : Type}

/-- No request slips past a wildcard without parameters: whatever entry answers a request that the
wildcard covers, the handler of the wildcard is among the handlers of the answer. -/
theorem find_guarded {routes : List (Method × Path × α)} {builder : Builder α}
    (hrun : ofRoutes routes = .ok builder)
    (hlines : ∀ route ∈ routes, '\n' ∉ route.2.1)
    (hsuffix : ∀ route ∈ routes, route.2.1.canonical.isWildcard = true →
      route.2.1.canonical.count '*' = 1)
    {config : Config} {log log' : Log} {router : FrozenRouter α}
    (hfreeze : (builder.withConfig config).freeze.run log = .ok router log')
    {guard : Method × Path × α} {id : HandlerId} (hguard : routes[id]? = some guard)
    (hcolon : ':' ∉ guard.2.1) (hwild : guard.2.1.canonical.isWildcard = true)
    {wildcard : Wildcard} (hok : Wildcard.ofPath guard.2.1.canonical = .ok wildcard)
    {method : Method} (hmethod : guard.1 = method ∨ guard.1 = allMethods)
    {path : Path} (hline : '\n' ∉ path) (hcovers : wildcard.covers path = true) :
    ∃ found, router.find method path = some found ∧ id ∈ found.handlers.ids ∧
      guard.2.2 ∈ found.handlers.toList := by
  have hreg := registered_of_run hrun
  have hmethods : ∀ method ∈ (builder.withConfig config).tables.keys,
      method ∈ (builder.withConfig config).methods := hreg.methods
  obtain ⟨hhandlers, hmatchers⟩ := freeze_eq_ok hmethods hfreeze
  obtain ⟨tables, htables⟩ : ∃ tables, builder.tablesFor method method = some tables :=
    ⟨_, if_pos rfl⟩
  have hholds : tables.Holds (addsFor routes method) :=
    hreg.tablesFor (fun _ _ hget => holds_of_run hrun hsuffix hget) htables
  have hbuild : Matcher.build config tables.entries = .ok (router.matcherOf method) := by
    rw [← (hreg.wellFormed.withConfig config).entriesOf_eq htables]
    exact hmatchers method
  have hlines' : ∀ add ∈ addsFor routes method, '\n' ∉ add.1 :=
    forall_mem_addsFor (P := fun path => '\n' ∉ path) (fun route hroute hmem =>
      hlines route hroute (Path.mem_of_mem_canonical hmem)) method
  have hguard_add : (guard.2.1.canonical, id) ∈ addsFor routes method :=
    mem_addsFor.2 ⟨guard, hguard, hmethod, rfl⟩
  have hcovers' : guard.2.1.canonical.covers path = true := by
    rw [Path.covers_eq hok]
    exact hcovers
  obtain ⟨chain, params, hlookup, hchain⟩ := hholds.lookup_guarded
    (suffixOnly_addsFor hsuffix method) hlines' hbuild hguard_add hwild
    (fun hmem => hcolon (Path.mem_of_mem_canonical hmem)) hline hcovers'
  have hstored : router.handlers[id]? = some guard.2.2 := by
    rw [hhandlers]
    show builder.handlers[id]? = _
    rw [hreg.handlers, List.getElem?_toArray, List.getElem?_map, hguard, Option.map_some]
  refine ⟨_, FrozenRouter.find_of_lookup hlookup, hchain, ?_⟩
  exact List.mem_filterMap.2 ⟨id, hchain, hstored⟩

end Builder

end

/-- A guard for all methods, and a route with a parameter that answers before the guard itself. -/
theorem Builder.find_guarded_parameter : ∃ builder router log,
    ofRoutes [("GET", "/a/:x/b".toList, 10), ("ALL", "/a/*".toList, 20),
      ("GET", "/a/s".toList, 30)] = .ok builder ∧
    (builder.withConfig {}).freeze.run [] = .ok router log ∧
    ∃ found, router.find "GET" "/a/u/b".toList = some found ∧ 1 ∈ found.handlers.ids ∧
      20 ∈ found.handlers.toList := by
  have hfrozen : (ofRoutes [("GET", "/a/:x/b".toList, 10), ("ALL", "/a/*".toList, 20),
      ("GET", "/a/s".toList, 30)]).toOption.bind (fun builder =>
        match (builder.withConfig {}).freeze.run [] with
        | .ok router _ => some router.handlerCount
        | .error _ _ => none) = some 3 := by
    cbv
  have hcovers : (Wildcard.ofPath (Path.canonical "/a/*".toList)).toOption.bind
      (fun wildcard => some (wildcard.covers "/a/u/b".toList)) = some true := by
    cbv
  obtain ⟨builder, hrun, hfrozen⟩ := exists_ok_of_toOption_bind hfrozen
  obtain ⟨wildcard, hok, hcovers⟩ := exists_ok_of_toOption_bind hcovers
  cases hfreeze : (builder.withConfig {}).freeze.run [] with
  | error e log =>
      rw [hfreeze] at hfrozen
      cases hfrozen
  | ok router log =>
      have hguard : [("GET", "/a/:x/b".toList, 10), ("ALL", "/a/*".toList, 20),
          ("GET", "/a/s".toList, 30)][1]? = some ("ALL", "/a/*".toList, 20) := rfl
      refine ⟨builder, router, log, hrun, hfreeze, ?_⟩
      exact find_guarded hrun (by decide) (by decide) hfreeze hguard (by decide) (by decide) hok
        (Or.inr rfl) (by decide) (Option.some.inj hcovers)

end PathRouter
