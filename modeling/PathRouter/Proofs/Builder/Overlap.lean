import Mathlib
import PathRouter.Proofs.Builder.Listed

/-!
The chains of a method when its wildcards overlap, so that two of them cover a path and neither
covers the other. A new path copies the chain of the longest wildcard that covers it, and of that
one only. So the handler of another wildcard reaches the path if it is registered later than the
path, or if it has reached the longest wildcard; and else it is lost.
-/

namespace PathRouter

section

variable [SizeRule]

/-- The wildcard that a new path inherits from. The registrations are listed latest first. -/
def closestBefore (earlier : List (Path × HandlerId)) (path : Path) : Option Path :=
  Path.closestAmong ((earlier.reverse.map Prod.fst).filter Path.isWildcard) path

/-- The handler is in the chain of a path. The registrations are listed latest first. -/
inductive Reaches (id : HandlerId) : List (Path × HandlerId) → Path → Prop
  /-- A handler is attached to every path that its own one applies to, once that path is listed. -/
  | attached {path key : Path} {earlier : List (Path × HandlerId)} :
    path.appliesTo key = true → key = path ∨ key ∈ earlier.map Prod.fst →
    Reaches id ((path, id) :: earlier) key
  /-- What has reached a path stays there. -/
  | kept {add : Path × HandlerId} {key : Path} {earlier : List (Path × HandlerId)} :
    Reaches id earlier key → Reaches id (add :: earlier) key
  /-- A new path inherits what has reached the closest wildcard. -/
  | inherited {key closest : Path} {other : HandlerId} {earlier : List (Path × HandlerId)} :
    key ∉ earlier.map Prod.fst → closestBefore earlier key = some closest →
    Reaches id earlier closest → Reaches id ((key, other) :: earlier) key

variable {id other : HandlerId} {path key : Path} {earlier : List (Path × HandlerId)}

theorem Reaches.mem (h : Reaches id earlier key) : key ∈ earlier.map Prod.fst := by
  induction h with
  | attached _ hlisted => exact List.mem_cons.2 hlisted
  | kept _ ih => exact List.mem_cons_of_mem _ ih
  | inherited => exact List.mem_cons_self

theorem reaches_cons_iff : Reaches id ((path, other) :: earlier) key ↔
    (Reaches id earlier key ∨ key = path ∧ key ∉ earlier.map Prod.fst ∧
      ∃ closest, closestBefore earlier key = some closest ∧ Reaches id earlier closest) ∨
    id = other ∧ path.appliesTo key = true ∧ (key = path ∨ key ∈ earlier.map Prod.fst) := by
  constructor
  · intro h
    cases h with
    | attached happlies hlisted => exact Or.inr ⟨rfl, happlies, hlisted⟩
    | kept h => exact Or.inl (Or.inl h)
    | inherited hnew hclosest h => exact Or.inl (Or.inr ⟨rfl, hnew, _, hclosest, h⟩)
  · rintro ((h | ⟨rfl, hnew, closest, hclosest, h⟩) | ⟨rfl, happlies, hlisted⟩)
    · exact h.kept
    · exact h.inherited hnew hclosest
    · exact .attached happlies hlisted

theorem reaches_append {later : List (Path × HandlerId)} (happlies : path.appliesTo key = true)
    (hkey : key ∈ earlier.map Prod.fst) : Reaches id (later ++ (path, id) :: earlier) key := by
  induction later with
  | nil => exact .attached happlies (Or.inr hkey)
  | cons add later ih => exact ih.kept

/-- Registrations are numbered in their order, so the numbers tell which of two came first. -/
theorem reaches_of_lt {adds : List (Path × HandlerId)}
    (hids : (adds.map Prod.snd).Pairwise (· < ·)) (hadd : (path, id) ∈ adds)
    (hkey : (key, other) ∈ adds) (hlt : other < id) (happlies : path.appliesTo key = true) :
    Reaches id adds.reverse key := by
  obtain ⟨before, after, rfl⟩ := List.append_of_mem hadd
  have hbefore : (key, other) ∈ before := by
    rcases List.mem_append.1 hkey with hbefore | hafter
    · exact hbefore
    · rw [List.map_append, List.map_cons, List.pairwise_append, List.pairwise_cons] at hids
      rcases List.mem_cons.1 hafter with heq | hafter
      · exact absurd (congrArg Prod.snd heq) (Nat.ne_of_lt hlt)
      · exact absurd hlt (Nat.not_lt.2 (Nat.le_of_lt
          (hids.2.1.1 other (List.mem_map_of_mem hafter))))
  rw [List.reverse_append, List.reverse_cons, List.append_assoc, List.singleton_append]
  apply reaches_append happlies
  rw [List.map_reverse, List.mem_reverse]
  exact List.mem_map_of_mem hbefore

/-- The wildcard covers all others that are at least as long as it is and share a path with it. -/
def Path.Outermost (guard : Path) (paths : List Path) : Prop :=
  ∀ other ∈ paths, other.isWildcard = true → guard.byteLength ≤ other.byteLength →
    (∃ key ∈ paths, guard.covers key = true ∧ other.covers key = true) → guard.covers other = true

theorem Path.Outermost.tail {guard path : Path} {paths : List Path}
    (h : guard.Outermost (path :: paths)) : guard.Outermost paths := by
  intro other hother hwild hle hshared
  obtain ⟨key, hkey, hcovers⟩ := hshared
  exact h other (List.mem_cons_of_mem _ hother) hwild hle
    ⟨key, List.mem_cons_of_mem _ hkey, hcovers⟩

/-- A wildcard that overlaps no other one reaches all that it covers. -/
theorem reaches_of_outermost {guard : Path} (hguard : (guard, id) ∈ earlier)
    (hwild : guard.isWildcard = true) (houter : guard.Outermost (earlier.map Prod.fst))
    (hkey : key ∈ earlier.map Prod.fst) (hcovers : guard.covers key = true) :
    Reaches id earlier key := by
  induction earlier generalizing key with
  | nil => cases hguard
  | cons add earlier ih =>
      have happlies : guard.appliesTo key = true := by simp [Path.appliesTo, hwild, hcovers]
      rcases List.mem_cons.1 hguard with rfl | hguard'
      · exact .attached happlies (List.mem_cons.1 hkey)
      · by_cases hold : key ∈ earlier.map Prod.fst
        · exact (ih hguard' houter.tail hold hcovers).kept
        · -- the path is new, and the closest wildcard is covered by this one
          obtain rfl : key = add.1 := (List.mem_cons.1 hkey).resolve_right hold
          have hlisted : guard ∈ (earlier.reverse.map Prod.fst).filter Path.isWildcard := by
            rw [List.map_reverse, List.mem_filter, List.mem_reverse]
            exact ⟨List.mem_map_of_mem hguard', hwild⟩
          obtain ⟨closest, hclosest, hle⟩ := Path.exists_closestAmong hlisted hcovers
          obtain ⟨hmem, hcovers'⟩ := Path.mem_of_closestAmong hclosest
          rw [List.map_reverse, List.mem_filter, List.mem_reverse] at hmem
          refine .inherited hold hclosest (ih hguard' houter.tail hmem.1 ?_)
          exact houter closest (List.mem_cons_of_mem _ hmem.1) hmem.2 hle
            ⟨add.1, List.mem_cons_self, hcovers, hcovers'⟩

namespace MethodTables

structure Tracks (tables : MethodTables) (adds : List (Path × HandlerId)) : Prop
    extends tables.Listed adds where
  closest : ∀ key, Path.closestAmong tables.middleware.keys key = closestBefore adds.reverse key
  chains : ∀ kind key chain, (tables.table kind).get? key = some chain →
    ∀ id, id ∈ chain ↔ Reaches id adds.reverse key

theorem tracks_empty : ({} : MethodTables).Tracks [] := by
  refine ⟨listed_empty, fun key => rfl, fun kind key chain hget => ?_⟩
  cases kind <;> cases hget

variable {tables : MethodTables} {adds : List (Path × HandlerId)} {wildcard : Option Wildcard}

theorem Tracks.mem_inherited (h : tables.Tracks adds) : id ∈ tables.inherited path ↔
    ∃ closest, closestBefore adds.reverse path = some closest ∧
      Reaches id adds.reverse closest := by
  have hnodup : tables.middleware.keys.Nodup := h.nodup .middleware
  rw [inherited, RouteTable.closest_eq_bind hnodup, h.closest]
  cases hclosest : closestBefore adds.reverse path with
  | none => simp
  | some closest =>
      have hmem : closest ∈ tables.middleware.keys := by
        rw [← h.closest] at hclosest
        exact (List.mem_filter.1 (List.argmax_mem hclosest)).1
      obtain ⟨chain, hget⟩ := OrderedMap.exists_get?_of_mem_keys hmem
      rw [Option.bind_some, hget, Option.getD_some, h.chains .middleware closest chain hget id]
      simp

/-- The closest wildcards are the same among the keys and among all registrations. -/
theorem Tracks.closest_registered (h : tables.Tracks adds)
    (hwildcard : path.wildcard? = .ok wildcard) (id : HandlerId) (key : Path) :
    Path.closestAmong (tables.registered path wildcard [path] id).middleware.keys key =
      closestBefore (adds ++ [(path, id)]).reverse key := by
  have hclosest := h.closest key
  rw [closestBefore, List.reverse_reverse] at hclosest
  rw [closestBefore, List.reverse_reverse, List.map_append, List.filter_append]
  cases wildcard with
  | none =>
      have hroute : path.isWildcard = false := Path.wildcard?_eq_none hwildcard
      have hkeys : (tables.registered path none [path] id).middleware = tables.middleware :=
        middleware_routed id
      rw [hkeys, hclosest]
      simp [hroute]
  | some wildcard =>
      have hwild : path.isWildcard = true := (Path.wildcard?_eq_some hwildcard).1
      have hlast : ([(path, id)].map Prod.fst).filter Path.isWildcard = [path] := by simp [hwild]
      rw [hlast]
      show Path.closestAmong (((tables.seeded .middleware path).attach wildcard id).table
        .middleware).keys key = _
      rw [keys_attach, keys_seeded]
      by_cases hlisted : path ∈ tables.middleware.keys
      · rw [if_neg fun hnew => hnew.2 hlisted, Path.closestAmong_concat_of_mem, ← hclosest]
        · rfl
        · exact List.mem_filter.2 ⟨((h.keys .middleware path).1 hlisted).2, hwild⟩
      · rw [if_pos ⟨rfl, hlisted⟩, Path.closestAmong_concat, Path.closestAmong_concat, ← hclosest]
        rfl

/-- What a path is seeded with: all that has reached it, or the closest wildcard if it is new. -/
theorem Tracks.mem_seeded (h : tables.Tracks adds) {kind : TableKind} {seed : Chain}
    (hget : ((tables.seeded path.kind path).table kind).get? key = some seed) :
    id ∈ seed ↔ Reaches id adds.reverse key ∨ key = path ∧ key ∉ adds.reverse.map Prod.fst ∧
      ∃ closest, closestBefore adds.reverse key = some closest ∧
        Reaches id adds.reverse closest := by
  have hmem : key ∈ adds.reverse.map Prod.fst ↔ key ∈ adds.map Prod.fst := by
    rw [List.map_reverse, List.mem_reverse]
  rcases h.toListed.get?_seeded_kind hget with hold | ⟨rfl, hnew, rfl⟩
  · have hlisted := ((h.keys kind key).1 (OrderedMap.mem_keys_of_get? hold)).2
    rw [h.chains kind key seed hold id]
    simp [hlisted]
  · have hnone : ¬Reaches id adds.reverse key := fun hreaches => hnew (hmem.1 hreaches.mem)
    rw [h.mem_inherited]
    simp [hnew, hnone]

theorem Tracks.registered (h : tables.Tracks adds) (hwildcard : path.wildcard? = .ok wildcard)
    (id : HandlerId) :
    (tables.registered path wildcard [path] id).Tracks (adds ++ [(path, id)]) := by
  have hlisted := h.toListed.registered hwildcard id
  refine ⟨hlisted, h.closest_registered hwildcard id, fun kind key chain hget other => ?_⟩
  have hkey : key = path ∨ key ∈ adds.reverse.map Prod.fst := by
    have hmem := ((hlisted.keys kind key).1 (OrderedMap.mem_keys_of_get? hget)).2
    rw [List.map_append, List.mem_append, List.map_singleton, List.mem_singleton] at hmem
    rw [List.map_reverse, List.mem_reverse]
    exact hmem.symm
  obtain ⟨seed, hseed, rfl⟩ := h.toListed.get?_registered hwildcard hget
  rw [List.reverse_append, List.reverse_singleton, List.singleton_append, reaches_cons_iff,
    ← h.mem_seeded hseed]
  cases path.appliesTo key with
  | false => simp
  | true =>
      rw [if_pos rfl, List.mem_append, List.mem_singleton, eq_self, true_and, and_iff_left hkey]

end MethodTables

namespace Builder

variable {α : Type}

/-- The handlers of wildcards in the chain of a route, for wildcards of any shape. A wildcard that
covers the route has its handler there if it was registered later than the route, or overlaps no
other wildcard; in general, if it has reached the route by way of the closest wildcards. -/
theorem wildcard_reaches_route {routes : List (Method × Path × α)} {builder : Builder α}
    (hrun : ofRoutes routes = .ok builder) {method : Method} {tables : MethodTables}
    (hget : builder.tables.get? method = some tables) {guard route : Method × Path × α}
    {id first : HandlerId} (hguard : routes[id]? = some guard)
    (hroute : routes[first]? = some route)
    (hguard_method : guard.1 = method ∨ guard.1 = allMethods)
    (hroute_method : route.1 = method ∨ route.1 = allMethods)
    (hwild : guard.2.1.canonical.isWildcard = true)
    (hnot : route.2.1.canonical.isWildcard = false) {wildcard : Wildcard}
    (hok : Wildcard.ofPath guard.2.1.canonical = .ok wildcard)
    (hcovers : wildcard.covers route.2.1.canonical = true) :
    ∃ chain, tables.routes.get? route.2.1.canonical = some chain ∧
      (id ∈ chain ↔ Reaches id (addsFor routes method).reverse route.2.1.canonical) ∧
      (first < id → id ∈ chain) ∧
      (guard.2.1.canonical.Outermost ((addsFor routes method).map Prod.fst) → id ∈ chain) := by
  have htracks : tables.Tracks (addsFor routes method) :=
    tables_of_run (Q := MethodTables.Tracks) MethodTables.tracks_empty
      (fun _ _ _ _ id h hwildcard => h.registered hwildcard id) hrun hget
  have hguard_add : (guard.2.1.canonical, id) ∈ addsFor routes method :=
    mem_addsFor.2 ⟨guard, hguard, hguard_method, rfl⟩
  have hroute_add : (route.2.1.canonical, first) ∈ addsFor routes method :=
    mem_addsFor.2 ⟨route, hroute, hroute_method, rfl⟩
  have hkind : route.2.1.canonical.kind = .routes := by rw [Path.kind, hnot]; rfl
  have hlisted := (htracks.keys .routes route.2.1.canonical).2
    ⟨hkind, List.mem_map_of_mem hroute_add⟩
  obtain ⟨chain, hchain⟩ := OrderedMap.exists_get?_of_mem_keys hlisted
  have hmem := htracks.chains .routes _ chain hchain id
  refine ⟨chain, hchain, hmem, fun hlt => hmem.2 ?_, fun houter => hmem.2 ?_⟩
  · apply reaches_of_lt (pairwise_addsFor routes method) hguard_add hroute_add hlt
    rw [Path.appliesTo_wildcard hwild hok, hcovers]
  · apply reaches_of_outermost (List.mem_reverse.2 hguard_add) hwild
    · simpa [Path.Outermost] using houter
    · rw [List.map_reverse, List.mem_reverse]
      exact List.mem_map_of_mem hroute_add
    · rw [Path.covers_eq hok, hcovers]

end Builder

end

/-- A wildcard for all methods that covers another one, and a route that is registered later. -/
theorem Builder.wildcard_reaches_route_nested : ∃ builder tables wildcard chain,
    ofRoutes [("ALL", "/users/*".toList, 0), ("GET", "/users/*/posts/*".toList, 1),
      ("GET", "/users/:id/posts/:pid".toList, 2)] = .ok builder ∧
    builder.tables.get? "GET" = some tables ∧
    Wildcard.ofPath "/users/*".toList = .ok wildcard ∧
    wildcard.covers "/users/:id/posts/:pid".toList = true ∧
    tables.routes.get? "/users/:id/posts/:pid".toList = some chain ∧ 0 ∈ chain := by
  have hfound : (ofRoutes [("ALL", "/users/*".toList, 0), ("GET", "/users/*/posts/*".toList, 1),
      ("GET", "/users/:id/posts/:pid".toList, 2)]).toOption.bind (fun builder =>
        (builder.tables.get? "GET").map fun tables => tables.routes.size) = some 1 := by
    cbv
  have hcovers : (Wildcard.ofPath "/users/*".toList).toOption.bind
      (fun wildcard => some (wildcard.covers "/users/:id/posts/:pid".toList)) = some true := by
    cbv
  obtain ⟨builder, hrun, hfound⟩ := exists_ok_of_toOption_bind hfound
  obtain ⟨tables, hget, -⟩ := Option.map_eq_some_iff.1 hfound
  obtain ⟨wildcard, hok, hcovers⟩ := exists_ok_of_toOption_bind hcovers
  have hguard : [("ALL", "/users/*".toList, 0), ("GET", "/users/*/posts/*".toList, 1),
      ("GET", "/users/:id/posts/:pid".toList, 2)][0]? = some ("ALL", "/users/*".toList, 0) := rfl
  have hroute : [("ALL", "/users/*".toList, 0), ("GET", "/users/*/posts/*".toList, 1),
      ("GET", "/users/:id/posts/:pid".toList, 2)][2]? =
        some ("GET", "/users/:id/posts/:pid".toList, 2) := rfl
  obtain ⟨chain, hchain, -, -, houter⟩ := wildcard_reaches_route hrun hget hguard hroute
    (Or.inr rfl) (Or.inl rfl) (by decide) (by decide) hok (Option.some.inj hcovers)
  refine ⟨builder, tables, wildcard, chain, hrun, hget, hok, Option.some.inj hcovers, hchain,
    houter ?_⟩
  intro other hother hwild _ _
  have hpaths : (addsFor [("ALL", "/users/*".toList, 0), ("GET", "/users/*/posts/*".toList, 1),
      ("GET", "/users/:id/posts/:pid".toList, 2)] "GET").map Prod.fst = ["/users/*".toList,
      "/users/*/posts/*".toList, "/users/:id/posts/:pid".toList] := by
    decide
  rw [hpaths] at hother
  simp only [List.mem_cons, List.not_mem_nil, or_false] at hother
  rcases hother with rfl | rfl | rfl
  · cbv
  · cbv
  · cbv

/-- A wildcard covers a route that is registered later, and its handler is not in the chain of the
route: the chain is copied from a longer wildcard, which the first one does not cover. -/
theorem Builder.wildcard_misses_route : ∃ builder tables wildcard,
    ofRoutes [("GET", "/users/:id/*".toList, 0), ("GET", "/users/*/posts/*".toList, 1),
      ("GET", "/users/:id/posts/:pid".toList, 2)] = .ok builder ∧
    builder.tables.get? "GET" = some tables ∧
    Wildcard.ofPath "/users/:id/*".toList = .ok wildcard ∧
    wildcard.covers "/users/:id/posts/:pid".toList = true ∧
    ∃ chain, tables.routes.get? "/users/:id/posts/:pid".toList = some chain ∧ 0 ∉ chain := by
  have hfound : (ofRoutes [("GET", "/users/:id/*".toList, 0),
      ("GET", "/users/*/posts/*".toList, 1),
      ("GET", "/users/:id/posts/:pid".toList, 2)]).toOption.bind (fun builder =>
        (builder.tables.get? "GET").bind fun tables =>
          tables.routes.get? "/users/:id/posts/:pid".toList) = some [1, 2] := by
    cbv
  have hcovers : (Wildcard.ofPath "/users/:id/*".toList).toOption.bind
      (fun wildcard => some (wildcard.covers "/users/:id/posts/:pid".toList)) = some true := by
    cbv
  obtain ⟨builder, hrun, hfound⟩ := exists_ok_of_toOption_bind hfound
  obtain ⟨tables, hget, hchain⟩ := Option.bind_eq_some_iff.1 hfound
  obtain ⟨wildcard, hok, hcovers⟩ := exists_ok_of_toOption_bind hcovers
  exact ⟨builder, tables, wildcard, hrun, hget, hok, Option.some.inj hcovers, [1, 2], hchain,
    by decide⟩

end PathRouter
