import Mathlib
import PathRouter.Proofs.Builder.Listed
import PathRouter.Proofs.Wildcard.Forest

/-!
The chains of a method, when all wildcards have their only star at the end. No registration
computes the chain of a path from all wildcards that cover it: a new path copies the chain of one of
them, the longest, and later wildcards are appended one by one. That this loses and invents nothing
is due to the nesting of suffix wildcards, for what covers the longest wildcard is just what covers
the path.
-/

namespace PathRouter

section

variable [SizeRule]

/-- The handlers whose paths apply to a key, in the order of registration. -/
def chainOf (adds : List (Path × HandlerId)) (key : Path) : Chain :=
  (adds.filter fun add => add.1.appliesTo key).map Prod.snd

theorem chainOf_concat (adds : List (Path × HandlerId)) (path key : Path) (id : HandlerId) :
    chainOf (adds ++ [(path, id)]) key =
      if path.appliesTo key then chainOf adds key ++ [id] else chainOf adds key := by
  rw [chainOf, chainOf, List.filter_append, List.map_append]
  cases happlies : path.appliesTo key <;> simp [happlies]

theorem mem_chainOf {adds : List (Path × HandlerId)} {key : Path} {id : HandlerId} :
    id ∈ chainOf adds key ↔ ∃ path, (path, id) ∈ adds ∧ path.appliesTo key = true := by
  simp [chainOf]

def SuffixOnly (adds : List (Path × HandlerId)) : Prop :=
  ∀ add ∈ adds, add.1.isWildcard = true → add.1.IsSuffixWildcard

namespace MethodTables

/-- The tables list the paths of the registrations, each in the table of its kind, with the handlers
that apply to it. -/
structure Holds (tables : MethodTables) (adds : List (Path × HandlerId)) : Prop where
  nodup : ∀ kind, (tables.table kind).keys.Nodup
  keys : ∀ kind key, key ∈ (tables.table kind).keys ↔ key.kind = kind ∧ key ∈ adds.map Prod.fst
  chains : ∀ kind key chain, (tables.table kind).get? key = some chain → chain = chainOf adds key

theorem holds_empty : ({} : MethodTables).Holds [] := by
  refine ⟨listed_empty.nodup, listed_empty.keys, fun kind key chain hget => ?_⟩
  cases kind <;> cases hget

variable {tables : MethodTables} {adds : List (Path × HandlerId)}

theorem Holds.listed (h : tables.Holds adds) : tables.Listed adds := ⟨h.nodup, h.keys⟩

/-- The longest wildcard that covers a path is covered by just the wildcards that cover the path. -/
theorem Holds.covers_longest_iff (h : tables.Holds adds) (hsuffix : SuffixOnly adds)
    {path longest : Path} (hlongest : longest ∈ tables.middleware.keys)
    (hcovers : longest.covers path = true)
    (hmax : ∀ other ∈ tables.middleware.keys, other.covers path = true →
      other.byteLength ≤ longest.byteLength) {add : Path × HandlerId} (hadd : add ∈ adds)
    (hwild : add.1.isWildcard = true) :
    add.1.covers longest = true ↔ add.1.covers path = true := by
  obtain ⟨source, hsource, hpath⟩ := List.mem_map.1 ((h.keys .middleware longest).1 hlongest).2
  have hlongest_suffix : longest.IsSuffixWildcard :=
    hpath ▸ hsuffix source hsource (hpath ▸ h.listed.isWildcard hlongest)
  have hadd_suffix := hsuffix add hadd hwild
  constructor
  · exact fun hcovered => Path.covers_trans hadd_suffix hlongest_suffix hcovered hcovers
  · intro hcovered
    -- the middleware lists all wildcards, so none of those that cover the path is longer
    have hle := hmax add.1 (h.listed.mem_middleware hadd hwild) hcovered
    exact Path.covers_longest hadd_suffix hlongest_suffix hcovered hcovers hle

/-- A new path inherits the handlers of all wildcards that cover it. -/
theorem Holds.inherited_eq_chainOf (h : tables.Holds adds) (hsuffix : SuffixOnly adds) {path : Path}
    (hnew : path ∉ adds.map Prod.fst) : tables.inherited path = chainOf adds path := by
  cases hclosest : tables.middleware.closest path with
  | none =>
      have huncovered := RouteTable.closest_eq_none_iff.1 hclosest
      rw [inherited, hclosest, Option.getD_none, chainOf, List.filter_eq_nil_iff.2, List.map_nil]
      intro add hadd happlies
      unfold Path.appliesTo at happlies
      rw [Bool.or_eq_true, Bool.and_eq_true, beq_iff_eq] at happlies
      rcases happlies with rfl | ⟨hwild, hcovers⟩
      · exact hnew (List.mem_map_of_mem hadd)
      · rw [huncovered add.1 (h.listed.mem_middleware hadd hwild)] at hcovers
        cases hcovers
  | some chain =>
      -- the chain copied is that of the longest wildcard, and has the same handlers
      obtain ⟨longest, hentry, hcovers, hmax⟩ := RouteTable.exists_key_of_closest hclosest
      have hget : (tables.table .middleware).get? longest = some chain :=
        (OrderedMap.mem_entries_iff (h.nodup .middleware)).1 hentry
      have hlongest : longest ∈ tables.middleware.keys := OrderedMap.mem_keys_of_get? hget
      rw [inherited, hclosest, Option.getD_some, h.chains _ _ _ hget]
      unfold chainOf
      congr 1
      apply List.filter_congr
      intro add hadd
      rw [Bool.eq_iff_iff]
      unfold Path.appliesTo
      simp only [Bool.or_eq_true, Bool.and_eq_true, beq_iff_eq]
      constructor
      · rintro (rfl | ⟨hwild, hcovered⟩)
        · exact Or.inr ⟨h.listed.isWildcard hlongest, hcovers⟩
        · exact Or.inr ⟨hwild,
            (h.covers_longest_iff hsuffix hlongest hcovers hmax hadd hwild).1 hcovered⟩
      · rintro (rfl | ⟨hwild, hcovered⟩)
        · exact absurd (List.mem_map_of_mem hadd) hnew
        · exact Or.inr ⟨hwild,
            (h.covers_longest_iff hsuffix hlongest hcovers hmax hadd hwild).2 hcovered⟩

/-- A seeded path has the handlers that apply to it, be it new or not. -/
theorem Holds.chain_seeded (h : tables.Holds adds) (hsuffix : SuffixOnly adds) {path key : Path}
    {kind : TableKind} {chain : Chain}
    (hget : ((tables.seeded path.kind path).table kind).get? key = some chain) :
    chain = chainOf adds key := by
  rcases h.listed.get?_seeded_kind hget with hold | ⟨rfl, hnew, rfl⟩
  · exact h.chains _ _ _ hold
  · exact h.inherited_eq_chainOf hsuffix hnew

theorem Holds.registered (h : tables.Holds adds) {path : Path} {wildcard : Option Wildcard}
    (hwildcard : path.wildcard? = .ok wildcard) (id : HandlerId) (hsuffix : SuffixOnly adds) :
    (tables.registered path wildcard [path] id).Holds (adds ++ [(path, id)]) := by
  have hlisted := h.listed.registered hwildcard id
  refine ⟨hlisted.nodup, hlisted.keys, fun kind key chain hget => ?_⟩
  obtain ⟨seed, hseed, rfl⟩ := h.listed.get?_registered hwildcard hget
  rw [chainOf_concat, h.chain_seeded hsuffix hseed]

end MethodTables

namespace Builder

variable {α : Type}

omit [SizeRule] in
theorem suffixOnly_addsFor {routes : List (Method × Path × α)}
    (h : ∀ route ∈ routes, route.2.1.canonical.isWildcard = true →
      route.2.1.canonical.count '*' = 1) (method : Method) :
    SuffixOnly (addsFor routes method) := by
  intro add hadd hwild
  have hcount := forall_mem_addsFor (P := fun path => path.isWildcard = true → path.count '*' = 1)
    h method add hadd
  exact ⟨hwild, hcount hwild⟩

theorem holds_of_run {routes : List (Method × Path × α)} {builder : Builder α}
    (hrun : ofRoutes routes = .ok builder)
    (hsuffix : ∀ route ∈ routes, route.2.1.canonical.isWildcard = true →
      route.2.1.canonical.count '*' = 1)
    {method : Method} {tables : MethodTables} (hget : builder.tables.get? method = some tables) :
    tables.Holds (addsFor routes method) := by
  have hQ := tables_of_run (Q := fun tables adds => SuffixOnly adds → tables.Holds adds)
    (fun _ => MethodTables.holds_empty) ?_ hrun hget
  · exact hQ (suffixOnly_addsFor hsuffix method)
  · intro tables adds path wildcard id hQ hwildcard hsuffix
    have hbefore : SuffixOnly adds := fun add hadd => hsuffix add (List.mem_append_left _ hadd)
    exact (hQ hbefore).registered hwildcard id hbefore

/-- Every chain holds just the handlers whose paths apply to its key, in the order of registration,
whatever the order of wildcards, routes and methods. -/
theorem chain_eq_registrations {routes : List (Method × Path × α)} {builder : Builder α}
    (hrun : ofRoutes routes = .ok builder)
    (hsuffix : ∀ route ∈ routes, route.2.1.canonical.isWildcard = true →
      route.2.1.canonical.count '*' = 1)
    {method : Method} {tables : MethodTables} (hget : builder.tables.get? method = some tables)
    (kind : TableKind) :
    (tables.table kind).keys.Nodup ∧
    (∀ key, key ∈ (tables.table kind).keys ↔ key.kind = kind ∧ ∃ route ∈ routes,
      (route.1 = method ∨ route.1 = allMethods) ∧ route.2.1.canonical = key) ∧
    ∀ key chain, (tables.table kind).get? key = some chain →
      chain = chainOf (addsFor routes method) key ∧ chain.Pairwise (· < ·) := by
  have hholds := holds_of_run hrun hsuffix hget
  refine ⟨hholds.nodup kind, fun key => ?_, fun key chain hchain => ?_⟩
  · rw [hholds.keys kind key, mem_map_addsFor]
  · obtain rfl := hholds.chains kind key chain hchain
    exact ⟨rfl, (pairwise_addsFor routes method).sublist (List.filter_sublist.map Prod.snd)⟩

end Builder

end

/-- A route between two wildcards, of which one is for all methods, and a route after both. -/
theorem Builder.chain_eq_registrations_nested : ∃ builder tables,
    ofRoutes [("GET", "/a/x".toList, 0), ("ALL", "/a/*".toList, 1), ("GET", "/*".toList, 2),
      ("POST", "/a/y".toList, 3), ("GET", "/a/y".toList, 4)] = .ok builder ∧
    builder.tables.get? "GET" = some tables ∧
    tables.routes.get? "/a/y".toList = some [1, 2, 4] ∧
    chainOf (addsFor [("GET", "/a/x".toList, 0), ("ALL", "/a/*".toList, 1),
      ("GET", "/*".toList, 2), ("POST", "/a/y".toList, 3), ("GET", "/a/y".toList, 4)] "GET")
        "/a/y".toList = [1, 2, 4] := by
  have hfound : (ofRoutes [("GET", "/a/x".toList, 0), ("ALL", "/a/*".toList, 1),
      ("GET", "/*".toList, 2), ("POST", "/a/y".toList, 3),
      ("GET", "/a/y".toList, 4)]).toOption.bind (fun builder => (builder.tables.get? "GET").bind
        fun tables => tables.routes.get? "/a/y".toList) = some [1, 2, 4] := by
    cbv
  obtain ⟨builder, hrun, hfound⟩ := exists_ok_of_toOption_bind hfound
  obtain ⟨tables, hget, hchain⟩ := Option.bind_eq_some_iff.1 hfound
  have hchains := (chain_eq_registrations hrun (by decide) hget .routes).2.2
  exact ⟨builder, tables, hrun, hget, hchain, (hchains _ _ hchain).1.symm⟩

end PathRouter
