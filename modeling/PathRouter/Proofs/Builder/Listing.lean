import PathRouter.Proofs.Builder.Reachable

/-!
What a run of registrations leaves behind. The registrations that matter to a method are its own
ones and those for all methods. A method that has no tables yet has none of its own, so the copy
that it gets is right for it, and its tables are those that a replay of the registrations that
matter to it ends with, as if no other method were there.
-/

namespace PathRouter

theorem Path.mem_of_mem_canonical {path : Path} {c : Char} (h : c ∈ path.canonical) : c ∈ path := by
  rw [Path.canonical] at h
  split at h
  · next hpath =>
      rw [hpath]
      exact List.mem_cons_of_mem _ h
  · exact h

section

variable [SizeRule]

def Path.kind (path : Path) : TableKind := if path.isWildcard then .middleware else .routes

theorem Path.wildcard?_eq_some {path : Path} {wildcard : Wildcard}
    (h : path.wildcard? = .ok (some wildcard)) :
    path.isWildcard = true ∧ Wildcard.ofPath path = .ok wildcard := by
  rw [Path.wildcard?] at h
  split at h
  · next hwild =>
      cases hok : Wildcard.ofPath path with
      | error e =>
          rw [hok] at h
          cases h
      | ok compiled =>
          rw [hok] at h
          cases h
          exact ⟨hwild, rfl⟩
  · cases h

theorem Path.wildcard?_eq_none {path : Path} (h : path.wildcard? = .ok none) :
    path.isWildcard = false := by
  rw [Path.wildcard?] at h
  split at h
  · cases hok : Wildcard.ofPath path <;> rw [hok] at h <;> cases h
  · next hwild => exact Bool.not_eq_true _ ▸ hwild

theorem Path.kind_eq {path : Path} {wildcard : Option Wildcard}
    (h : path.wildcard? = .ok wildcard) :
    path.kind = if wildcard.isSome then .middleware else .routes := by
  cases wildcard with
  | some wildcard => exact if_pos (wildcard?_eq_some h).1
  | none =>
      rw [kind, wildcard?_eq_none h]
      rfl

namespace MethodTables

/-- The tables after one more registration. A wildcard that does not compile is refused. -/
def record (expander : Expander) (tables : MethodTables) (add : Path × HandlerId) : MethodTables :=
  match add.1.wildcard? with
  | .ok wildcard => tables.registered add.1 wildcard (expander.paths add.1) add.2
  | .error _ => tables

def replay (expander : Expander) (adds : List (Path × HandlerId)) : MethodTables :=
  adds.foldl (record expander) {}

variable {expander : Expander} {adds : List (Path × HandlerId)}

theorem replay_concat (expander : Expander) (adds : List (Path × HandlerId))
    (add : Path × HandlerId) :
    replay expander (adds ++ [add]) = (replay expander adds).record expander add := by
  rw [replay, List.foldl_append]
  rfl

theorem record_of_ok {tables : MethodTables} {path : Path} {wildcard : Option Wildcard}
    (hwildcard : path.wildcard? = .ok wildcard) (id : HandlerId) :
    tables.record expander (path, id) =
      tables.registered path wildcard (expander.paths path) id := by
  rw [record, hwildcard]

/-- What holds of empty tables and is kept by a registration holds at the end of a replay. -/
theorem replay_induction {Q : MethodTables → List (Path × HandlerId) → Prop} (hempty : Q {} [])
    (hstep : ∀ tables adds path wildcard id, Q tables adds → path.wildcard? = .ok wildcard →
      Q (tables.registered path wildcard (expander.paths path) id) (adds ++ [(path, id)]))
    (hcompiled : ∀ add ∈ adds, ∃ wildcard, add.1.wildcard? = .ok wildcard) :
    Q (replay expander adds) adds := by
  induction adds using List.reverseRecOn with
  | nil => exact hempty
  | append_singleton adds add ih =>
      obtain ⟨wildcard, hwildcard⟩ :=
        hcompiled add (List.mem_append_right _ (List.mem_singleton.2 rfl))
      rw [replay_concat, record_of_ok hwildcard]
      exact hstep _ _ _ _ _ (ih fun add hadd => hcompiled add (List.mem_append_left _ hadd))
        hwildcard

end MethodTables

end

namespace Builder

variable {α : Type}

/-- The paths that are registered with a method or with all methods, and the handlers' positions. -/
def addsFor (routes : List (Method × Path × α)) (method : Method) : List (Path × HandlerId) :=
  routes.zipIdx.filterMap fun (route, id) =>
    if route.1 = method ∨ route.1 = allMethods then some (route.2.1.canonical, id) else none

theorem addsFor_concat (routes : List (Method × Path × α)) (route : Method × Path × α)
    (method : Method) : addsFor (routes ++ [route]) method = addsFor routes method ++
      if route.1 = method ∨ route.1 = allMethods then [(route.2.1.canonical, routes.length)]
      else [] := by
  rw [addsFor, List.zipIdx_append, List.filterMap_append, ← addsFor, Nat.zero_add]
  congr 1
  simp only [List.zipIdx_singleton, List.filterMap_cons, List.filterMap_nil]
  split <;> simp_all

theorem addsFor_eq_addsFor_allMethods {routes : List (Method × Path × α)} {method : Method}
    (h : ∀ route ∈ routes, route.1 ≠ method) :
    addsFor routes method = addsFor routes allMethods := by
  apply List.filterMap_congr
  rintro ⟨route, id⟩ hroute
  have hmem : route ∈ routes := List.fst_mem_of_mem_zipIdx hroute
  simp [h route hmem]

theorem mem_addsFor {routes : List (Method × Path × α)} {method : Method} {path : Path}
    {id : HandlerId} : (path, id) ∈ addsFor routes method ↔ ∃ route, routes[id]? = some route ∧
      (route.1 = method ∨ route.1 = allMethods) ∧ route.2.1.canonical = path := by
  rw [addsFor, List.mem_filterMap]
  constructor
  · rintro ⟨⟨route, i⟩, hmem, hsome⟩
    obtain ⟨hmethod, hpair⟩ := Option.ite_none_right_eq_some.1 hsome
    cases hpair
    exact ⟨route, List.mem_zipIdx_iff_getElem?.1 hmem, hmethod, rfl⟩
  · rintro ⟨route, hroute, hmethod, rfl⟩
    exact ⟨(route, id), List.mem_zipIdx_iff_getElem?.2 hroute, if_pos hmethod⟩

theorem forall_mem_addsFor {routes : List (Method × Path × α)} {P : Path → Prop}
    (h : ∀ route ∈ routes, P route.2.1.canonical) (method : Method) :
    ∀ add ∈ addsFor routes method, P add.1 := by
  intro add hadd
  obtain ⟨route, hroute, -, hpath⟩ := mem_addsFor.1 hadd
  rw [← hpath]
  exact h route (List.mem_of_getElem? hroute)

theorem pairwise_addsFor (routes : List (Method × Path × α)) (method : Method) :
    ((addsFor routes method).map Prod.snd).Pairwise (· < ·) := by
  induction routes using List.reverseRecOn with
  | nil => exact List.Pairwise.nil
  | append_singleton routes route ih =>
      rw [addsFor_concat, List.map_append, List.pairwise_append]
      refine ⟨ih, by split <;> simp, ?_⟩
      intro id hid last hlast
      obtain ⟨⟨path, id⟩, hadd, rfl⟩ := List.mem_map.1 hid
      obtain ⟨old, hold, -⟩ := mem_addsFor.1 hadd
      have hlt : id < routes.length := (List.getElem?_eq_some_iff.1 hold).1
      split at hlast
      · rw [List.map_singleton, List.mem_singleton] at hlast
        rwa [hlast]
      · cases hlast

theorem mem_map_addsFor {routes : List (Method × Path × α)} {method : Method} {path : Path} :
    path ∈ (addsFor routes method).map Prod.fst ↔ ∃ route ∈ routes,
      (route.1 = method ∨ route.1 = allMethods) ∧ route.2.1.canonical = path := by
  rw [List.mem_map]
  constructor
  · rintro ⟨⟨path, id⟩, hadd, rfl⟩
    obtain ⟨route, hroute, hmethod, hpath⟩ := mem_addsFor.1 hadd
    exact ⟨route, List.mem_of_getElem? hroute, hmethod, hpath⟩
  · rintro ⟨route, hroute, hmethod, hpath⟩
    obtain ⟨id, hid⟩ := List.getElem?_of_mem hroute
    exact ⟨(path, id), mem_addsFor.2 ⟨route, hid, hmethod, hpath⟩, rfl⟩

variable [SizeRule]

/-- A builder after a run of accepted registrations, with the limits and the expander as they were
all the time. -/
structure Registered (config : Config) (expander : Expander) (routes : List (Method × Path × α))
    (builder : Builder α) : Prop where
  wellFormed : builder.WellFormed
  handlers : builder.handlers = (routes.map fun route => route.2.2).toArray
  own : ∀ route ∈ routes, route.1 ∈ builder.tables.keys
  methods : ∀ method ∈ builder.tables.keys, method ∈ builder.methods
  compiled : ∀ route ∈ routes, ∃ wildcard, route.2.1.canonical.wildcard? = .ok wildcard
  tables : ∀ method tables, builder.tables.get? method = some tables →
    tables = .replay expander (addsFor routes method)
  config : builder.config = config
  expander : builder.expander = expander

theorem registered_nil (config : Config) (expander : Expander) :
    Registered config expander [] { ({} : Builder α) with config, expander } where
  wellFormed := wellFormed_empty.withSettings config expander
  handlers := rfl
  config := rfl
  expander := rfl
  own route h := by cases h
  methods method h := by
    rw [List.mem_singleton.1 h]
    exact List.mem_cons_self
  compiled route h := by cases h
  tables method tables hget := @get?_empty α _ _ hget

variable {config : Config} {expander : Expander} {routes : List (Method × Path × α)}
  {before after : Builder α} {route : Method × Path × α} {wildcard : Option Wildcard}

theorem Registered.compiled_addsFor (h : Registered config expander routes before)
    (method : Method) :
    ∀ add ∈ addsFor routes method, ∃ wildcard, add.1.wildcard? = .ok wildcard :=
  forall_mem_addsFor (P := fun path => ∃ wildcard, path.wildcard? = .ok wildcard) h.compiled method

/-- What holds of the tables of every method holds of those that a method is about to get. -/
theorem Registered.tablesFor (h : Registered config expander routes before)
    {Q : MethodTables → List (Path × HandlerId) → Prop}
    (hQ : ∀ method tables, before.tables.get? method = some tables →
      Q tables (addsFor routes method))
    {method other : Method} {tables : MethodTables}
    (hget : before.tablesFor method other = some tables) : Q tables (addsFor routes other) := by
  rw [Builder.tablesFor] at hget
  split at hget
  · next hother =>
      subst hother
      cases hown : before.tables.get? other with
      | some own =>
          rw [hown, Option.getD_some, Option.some.injEq] at hget
          exact hQ other tables (hget ▸ hown)
      | none =>
          -- a copy of the tables for all methods, and no registration was for this method
          obtain ⟨shared, hshared, -⟩ := h.wellFormed.shared
          rw [hown, hshared, Option.getD_none, Option.getD_some, Option.some.injEq] at hget
          rw [addsFor_eq_addsFor_allMethods]
          · exact hQ allMethods tables (hget ▸ hshared)
          · intro route hroute hmethod
            have hmem := h.own route hroute
            rw [hmethod] at hmem
            exact OrderedMap.get?_eq_none_iff.1 hown hmem
  · exact hQ other tables hget

/-- An accepted registration goes on with the replay of every method that it matters to. -/
theorem Registered.concat (h : Registered config expander routes before)
    (hwildcard : route.2.1.canonical.wildcard? = .ok wildcard)
    (hadded : Added route.1 route.2.1.canonical wildcard route.2.2 before after) :
    Registered config expander (routes ++ [route]) after := by
  constructor
  case wellFormed => exact hadded.wellFormed h.wellFormed
  case handlers => simp [hadded.handlers, h.handlers]
  case config => rw [hadded.config, h.config]
  case expander => rw [hadded.expander, h.expander]
  case own =>
    intro other hother
    rw [hadded.mem_keys]
    rcases List.mem_append.1 hother with hother | hother
    · exact Or.inl (h.own other hother)
    · exact Or.inr (congrArg Prod.fst (List.mem_singleton.1 hother))
  case methods =>
    intro method hmethod
    rw [hadded.mem_methods]
    exact (hadded.mem_keys.1 hmethod).imp_left (h.methods method)
  case compiled =>
    intro other hother
    rcases List.mem_append.1 hother with hother | hother
    · exact h.compiled other hother
    · rw [List.mem_singleton.1 hother]
      exact ⟨wildcard, hwildcard⟩
  case tables =>
    intro method tables hget
    rw [hadded.tables, Option.map_eq_some_iff] at hget
    obtain ⟨old, hold, rfl⟩ := hget
    obtain rfl : old = MethodTables.replay expander (addsFor routes method) :=
      h.tablesFor (Q := fun tables adds => tables = .replay expander adds) h.tables hold
    have htarget : (route.1 = allMethods ∨ method = route.1) ↔
        (route.1 = method ∨ route.1 = allMethods) := by
      rw [or_comm, eq_comm (a := method)]
    have hsize : before.handlers.size = routes.length := by simp [h.handlers]
    rw [addsFor_concat, h.expander, hsize]
    simp only [htarget]
    split
    · rw [MethodTables.replay_concat, MethodTables.record_of_ok hwildcard]
    · rw [List.append_nil]

theorem registered_of_run {builder : Builder α} (hrun : ofRoutes routes = .ok builder) :
    Registered {} .none routes builder := by
  have hloop : (routes.forM fun route => discard (add route.1 route.2.1 route.2.2)).run {} =
      .ok ⟨⟩ builder := by
    rw [ofRoutes] at hrun
    split at hrun
    · next hok =>
        cases hrun
        exact hok
    · cases hrun
  show Registered {} .none ([] ++ routes) builder
  apply forM_induction _ (registered_nil {} .none) hloop
  intro routes route before after h hrun
  obtain ⟨log, hadd⟩ := run_discard_eq_ok.1 hrun
  obtain ⟨wildcard, hwildcard, hadded⟩ := h.wellFormed.added_of_run hadd
  exact h.concat hwildcard hadded

/-- A run of registrations, followed through the tables of each method: what holds of empty tables
and is kept by a registration holds at the end, of the registrations that matter to the method. -/
theorem tables_of_run {Q : MethodTables → List (Path × HandlerId) → Prop} (hempty : Q {} [])
    (hstep : ∀ tables adds path wildcard id, Q tables adds → path.wildcard? = .ok wildcard →
      Q (tables.registered path wildcard [path] id) (adds ++ [(path, id)]))
    {builder : Builder α} (hrun : ofRoutes routes = .ok builder) {method : Method}
    {tables : MethodTables} (hget : builder.tables.get? method = some tables) :
    Q tables (addsFor routes method) := by
  have h := registered_of_run hrun
  rw [h.tables method tables hget]
  exact MethodTables.replay_induction hempty hstep (h.compiled_addsFor method)

end Builder

end PathRouter
