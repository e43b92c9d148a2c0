import Mathlib
import PathRouter.Proofs.Builder.Renumber

/-!
Methods do not get in each other's way. All methods share one store of handlers, one cache of
wildcards, and the tables for all methods. Still a method is answered as if only the registrations
that matter to it had been made: without the others the handlers stand in other places, and this is
all the difference that there is.
-/

namespace PathRouter

/-- What a caller sees of a match: the handler in each place of the chain, and the parameters. -/
def Match.answer {α : Type} (found : Match α) : List (Option α) × Params :=
  (found.handlers.ids.map (found.handlers.store[·]?), found.params)

namespace FrozenRouter

variable {α : Type}

theorem find_eq_map (router : FrozenRouter α) (method : Method) (path : Path) :
    router.find method path = ((router.matcherOf method).lookup path).map fun found =>
      { handlers := ⟨router.handlers, found.1⟩, params := found.2 } := by
  rw [find]
  cases (router.matcherOf method).lookup path with
  | none => rfl
  | some found => rfl

/-- Answers do not tell where the handlers are stored. -/
theorem answer_renumber {router other : FrozenRouter α} {f : HandlerId → HandlerId}
    (hhandlers : ∀ i, router.handlers[f i]? = other.handlers[i]?) {method : Method}
    (hmatcher : router.matcherOf method = (other.matcherOf method).renumber f) (path : Path) :
    (router.find method path).map Match.answer = (other.find method path).map Match.answer := by
  rw [find_eq_map, find_eq_map, hmatcher, Matcher.lookup_renumber]
  cases (other.matcherOf method).lookup path with
  | none => rfl
  | some found =>
      obtain ⟨chain, params⟩ := found
      have hchain : (chain.map f).map (router.handlers[·]?) = chain.map (other.handlers[·]?) := by
        rw [List.map_map]
        exact List.map_congr_left fun id _ => hhandlers id
      exact congrArg (fun handlers => some (handlers, params)) hchain

end FrozenRouter

namespace Builder

variable {α : Type}

/-! ### The registrations that matter to a method -/

def concerns (method : Method) (route : Method × Path × α) : Bool :=
  decide (route.1 = method ∨ route.1 = allMethods)

def placed (routes : List (Method × Path × α)) (method : Method) :
    List ((Method × Path × α) × HandlerId) :=
  routes.zipIdx.filter fun (route, _) => concerns method route

/-- The place of a handler among all handlers, by its place among those that matter to a method. -/
def placeOf (routes : List (Method × Path × α)) (method : Method) (id : HandlerId) : HandlerId :=
  (((placed routes method).map Prod.snd)[id]?).getD routes.length

variable {routes : List (Method × Path × α)} {method : Method}

theorem map_fst_placed :
    (placed routes method).map Prod.fst = routes.filter (concerns method) := by
  have hroutes : routes.zipIdx.map Prod.fst = routes := List.zipIdx_map_fst 0 routes
  rw [placed, ← hroutes, List.filter_map, hroutes]
  rfl

/-- The registrations that matter are numbered anew, and `placeOf` goes back to the old numbers. -/
theorem placed_eq_map :
    placed routes method = (routes.filter (concerns method)).zipIdx.map
      (Prod.map id (placeOf routes method)) := by
  apply List.ext_getElem?
  intro i
  rw [← map_fst_placed, List.getElem?_map, List.getElem?_zipIdx, List.getElem?_map, Nat.zero_add,
    Option.map_map, Option.map_map]
  cases hplaced : (placed routes method)[i]? with
  | none => rfl
  | some pair =>
      have hplace : placeOf routes method i = pair.2 := by
        rw [placeOf, List.getElem?_map, hplaced, Option.map_some, Option.getD_some]
      simp only [Option.map_some, Function.comp_apply, Prod.map_apply, hplace, id_eq]

/-- The handlers that matter to a method are the same in their old places. -/
theorem getElem?_placeOf (i : Nat) :
    routes[placeOf routes method i]? = (routes.filter (concerns method))[i]? := by
  rw [← map_fst_placed, List.getElem?_map]
  cases hplaced : (placed routes method)[i]? with
  | none =>
      rw [placeOf, List.getElem?_map, hplaced, Option.map_none, Option.getD_none]
      exact List.getElem?_eq_none (Nat.le_refl _)
  | some pair =>
      have hmem : pair ∈ routes.zipIdx := (List.mem_filter.1 (List.mem_of_getElem? hplaced)).1
      rw [placeOf, List.getElem?_map, hplaced, Option.map_some, Option.getD_some]
      exact List.mem_zipIdx_iff_getElem?.1 hmem

/-- What matters to all methods matters to each of them, so nothing that is left out is missing. -/
theorem addsFor_filter_concerns {other : Method} (hother : other = method ∨ other = allMethods) :
    addsFor routes other = (addsFor (routes.filter (concerns method)) other).map
      (Prod.map id (placeOf routes method)) := by
  have hplaced : addsFor routes other = (placed routes method).filterMap fun (route, id) =>
      if route.1 = other ∨ route.1 = allMethods then some (route.2.1.canonical, id) else none := by
    rw [addsFor, placed, List.filterMap_filter]
    apply List.filterMap_congr
    rintro ⟨route, id⟩ -
    by_cases hmatters : route.1 = other ∨ route.1 = allMethods
    · have hconcerns : concerns method route = true := by
        rw [concerns, decide_eq_true_eq]
        rcases hother with rfl | rfl
        · exact hmatters
        · exact Or.inr (hmatters.elim (fun h => h) fun h => h)
      simp only [hconcerns, if_true]
    · simp only [hmatters, if_false, ite_self]
  rw [hplaced, placed_eq_map, List.filterMap_map, addsFor, List.map_filterMap]
  apply List.filterMap_congr
  rintro ⟨route, id⟩ -
  simp only [Function.comp_apply, Prod.map_apply, id_eq]
  split <;> rfl

end Builder

section

variable [SizeRule]

namespace Builder

variable {α : Type}

/-! ### Accepted registrations -/

def fresh (config : Config) (expander : Expander) : Builder α :=
  (({} : Builder α).withConfig config).withExpander expander

/-- The registrations that are accepted: those whose wildcard compiles, or that have none. -/
def accepted (calls : List (Method × Path × α)) : List (Method × Path × α) :=
  calls.filter fun call => call.2.1.canonical.wildcard?.isOk

variable {config : Config} {expander : Expander}

theorem registered_addAll (config : Config) (expander : Expander)
    (calls : List (Method × Path × α)) :
    Registered config expander (accepted calls) ((fresh config expander).addAll calls) := by
  induction calls using List.reverseRecOn with
  | nil => exact registered_nil config expander
  | append_singleton calls call ih =>
      rw [addAll_concat, accepted, List.filter_append]
      rcases ih.wellFormed.attempt_cases call with
        ⟨wildcard, hwildcard, hadded⟩ | ⟨⟨e, herror⟩, hsame⟩
      · rw [List.filter_cons_of_pos (by rw [hwildcard]; rfl)]
        exact ih.concat hwildcard hadded
      · rw [List.filter_cons_of_neg (by rw [herror]; exact Bool.false_ne_true), hsame]
        rw [List.filter_nil, List.append_nil]
        exact ih

variable {routes : List (Method × Path × α)} {method : Method}

theorem accepted_filter (calls : List (Method × Path × α)) (p : Method × Path × α → Bool) :
    accepted (calls.filter p) = (accepted calls).filter p :=
  List.filter_comm ..

/-! ### Two runs -/

theorem Registered.entriesOf_eq {builder : Builder α}
    (h : Registered config expander routes builder) (method : Method) :
    builder.entriesOf method = (MethodTables.replay expander (addsFor routes method)).entries := by
  obtain ⟨tables, htables⟩ : ∃ tables, builder.tablesFor method method = some tables :=
    ⟨_, if_pos rfl⟩
  rw [h.wellFormed.entriesOf_eq htables]
  exact congrArg _ (h.tablesFor (Q := fun tables adds => tables = .replay expander adds) h.tables
    htables)

/-- Without the registrations that do not matter, the entries of a method differ in the numbers of
the handlers only. -/
theorem Registered.entriesOf_alone {builder alone : Builder α}
    (h : Registered config expander routes builder)
    (halone : Registered config expander (routes.filter (concerns method)) alone) {other : Method}
    (hother : other = method ∨ other = allMethods) :
    builder.entriesOf other =
      (alone.entriesOf other).map (Entry.renumber (placeOf routes method)) := by
  rw [h.entriesOf_eq, halone.entriesOf_eq, addsFor_filter_concerns hother,
    MethodTables.replay_renumber, MethodTables.entries_renumber]

theorem Registered.entriesOf_eq_entriesOf_allMethods {builder : Builder α}
    (h : Registered config expander routes builder) (hnone : ∀ route ∈ routes, route.1 ≠ method) :
    builder.entriesOf method = builder.entriesOf allMethods := by
  rw [h.entriesOf_eq, h.entriesOf_eq, addsFor_eq_addsFor_allMethods hnone]

/-- The handlers that matter to a method are stored in their old places as well. -/
theorem Registered.getElem?_handlers {builder alone : Builder α}
    (h : Registered config expander routes builder)
    (halone : Registered config expander (routes.filter (concerns method)) alone) (i : HandlerId) :
    builder.handlers[placeOf routes method i]? = alone.handlers[i]? := by
  rw [h.handlers, halone.handlers, List.getElem?_toArray, List.getElem?_toArray,
    List.getElem?_map, List.getElem?_map, getElem?_placeOf]

theorem Registered.exists_build_alone {builder alone : Builder α}
    (h : Registered config expander routes builder)
    (halone : Registered config expander (routes.filter (concerns method)) alone)
    {router : FrozenRouter α}
    (hmatchers : ∀ other, Matcher.build builder.config (builder.entriesOf other) =
      .ok (router.matcherOf other)) {other : Method}
    (hother : other = method ∨ other = allMethods) :
    ∃ matcher, Matcher.build alone.config (alone.entriesOf other) = .ok matcher ∧
      router.matcherOf other = matcher.renumber (placeOf routes method) := by
  have hbuild := hmatchers other
  rw [h.config, h.entriesOf_alone halone hother, Matcher.build_renumber] at hbuild
  rw [halone.config]
  cases hmatcher : Matcher.build config (alone.entriesOf other) with
  | error e =>
      rw [hmatcher] at hbuild
      cases hbuild
  | ok matcher =>
      rw [hmatcher] at hbuild
      exact ⟨matcher, rfl, (Except.ok.inj hbuild).symm⟩

/-- Without the registrations that do not matter to a method, the builder can be frozen too. -/
theorem Registered.exists_freeze_alone {builder alone : Builder α}
    (h : Registered config expander routes builder)
    (halone : Registered config expander (routes.filter (concerns method)) alone)
    {router : FrozenRouter α}
    (hmatchers : ∀ other, Matcher.build builder.config (builder.entriesOf other) =
      .ok (router.matcherOf other)) (log : Log) :
    ∃ frozen log', alone.freeze.run log = .ok frozen log' := by
  apply exists_run_freeze
  intro other
  by_cases hother : other = method ∨ other = allMethods
  · obtain ⟨matcher, hbuild, -⟩ := h.exists_build_alone halone hmatchers hother
    exact ⟨matcher, hbuild⟩
  · -- another method has no registrations left, so it has the entries for all methods
    have hnone : ∀ route ∈ routes.filter (concerns method), route.1 ≠ other := by
      rintro route hroute rfl
      exact hother (of_decide_eq_true (List.mem_filter.1 hroute).2)
    obtain ⟨matcher, hbuild, -⟩ := h.exists_build_alone halone hmatchers (Or.inr rfl)
    exact ⟨matcher, by rw [halone.entriesOf_eq_entriesOf_allMethods hnone, hbuild]⟩

theorem exists_run_of_mem_accepted {calls : List (Method × Path × α)} {call : Method × Path × α}
    (hcall : call ∈ accepted calls) : ∃ before after, calls = before ++ call :: after ∧
      ∃ log added, (add call.1 call.2.1 call.2.2).run ((fresh config expander).addAll before) =
        .ok log added := by
  obtain ⟨hmem, hok⟩ := List.mem_filter.1 hcall
  obtain ⟨before, after, hcalls⟩ := List.append_of_mem hmem
  cases hwildcard : call.2.1.canonical.wildcard? with
  | error e =>
      rw [hwildcard] at hok
      cases hok
  | ok wildcard =>
      obtain ⟨log, added, hrun, -⟩ := (registered_addAll config expander before).wellFormed
        |>.exists_run_add call.1 hwildcard call.2.2
      exact ⟨before, after, hcalls, log, added, hrun⟩

/-- A method is answered as if only the registrations that matter to it had been made: these can be
frozen too, and every request gets the same handlers and parameters. A method for which nothing has
been registered is answered as all methods are. -/
theorem find_isolated (config : Config) (expander : Expander) (calls : List (Method × Path × α))
    {log log' : Log} {router : FrozenRouter α}
    (hfreeze : ((fresh config expander).addAll calls).freeze.run log = .ok router log')
    (method : Method) :
    (∃ alone log'', ((fresh config expander).addAll
        (calls.filter (concerns method))).freeze.run log = .ok alone log'' ∧
      ∀ path, (router.find method path).map Match.answer =
        (alone.find method path).map Match.answer) ∧
    ((∀ before call after, calls = before ++ call :: after → call.1 = method → ∀ log added,
        (add call.1 call.2.1 call.2.2).run ((fresh config expander).addAll before) ≠
          .ok log added) →
      ∀ path, router.find method path = router.find allMethods path) := by
  have hfull := registered_addAll config expander calls
  have hkept := registered_addAll config expander (calls.filter (concerns method))
  rw [accepted_filter] at hkept
  obtain ⟨hhandlers, hmatchers⟩ := freeze_eq_ok hfull.methods hfreeze
  constructor
  · obtain ⟨alone, log'', hrun⟩ := hfull.exists_freeze_alone hkept hmatchers log
    obtain ⟨hhandlers', hmatchers'⟩ := freeze_eq_ok hkept.methods hrun
    obtain ⟨matcher, hbuild, hrenumbered⟩ :=
      hfull.exists_build_alone hkept hmatchers (Or.inl rfl)
    rw [hmatchers' method, Except.ok.injEq] at hbuild
    refine ⟨alone, log'', hrun, FrozenRouter.answer_renumber
      (f := placeOf (accepted calls) method) (fun i => ?_) ?_⟩
    · rw [hhandlers, hhandlers', hfull.getElem?_handlers hkept]
    · rw [hrenumbered, hbuild]
  · intro hrefused path
    have hnone : ∀ route ∈ accepted calls, route.1 ≠ method := by
      intro route hroute hmethod
      obtain ⟨before, after, hcalls, log, added, hrun⟩ := exists_run_of_mem_accepted hroute
      exact hrefused before route after hcalls hmethod log added hrun
    have hsame := hmatchers method
    rw [hfull.entriesOf_eq_entriesOf_allMethods hnone, hmatchers allMethods,
      Except.ok.injEq] at hsame
    rw [FrozenRouter.find_eq_map, FrozenRouter.find_eq_map, hsame]

end Builder

end

/-- Middleware for all methods among the routes of two methods, and a method without routes. -/
theorem Builder.find_isolated_shared_prefix :
    ∃ calls : List (Method × Path × Nat), calls = [("POST", "/a/:x".toList, 10),
      ("ALL", "/a/*".toList, 20), ("GET", "/a/:y".toList, 30), ("POST", "/a/*".toList, 40)] ∧
    ∃ router log', ((fresh {} .none).addAll calls).freeze.run [] = .ok router log' ∧
      (router.find "GET" "/a/7".toList).map Match.answer =
        some ([some 20, some 30], [("y".toList, "7".toList)]) ∧
      (∃ alone log'', ((fresh {} .none).addAll [("ALL", "/a/*".toList, 20),
          ("GET", "/a/:y".toList, 30)]).freeze.run [] = .ok alone log'' ∧
        ∀ path, (router.find "GET" path).map Match.answer =
          (alone.find "GET" path).map Match.answer) ∧
      ∀ path, router.find "PUT" path = router.find allMethods path := by
  refine ⟨_, rfl, ?_⟩
  have hfound : (match ((fresh {} .none).addAll [("POST", "/a/:x".toList, 10),
      ("ALL", "/a/*".toList, 20), ("GET", "/a/:y".toList, 30),
      ("POST", "/a/*".toList, 40)]).freeze.run [] with
    | .ok router _ => (router.find "GET" "/a/7".toList).map Match.answer
    | .error _ _ => none) = some ([some 20, some 30], [("y".toList, "7".toList)]) := by
    cbv
  split at hfound
  · next router log' hfreeze =>
      refine ⟨router, log', hfreeze, hfound, (find_isolated _ _ _ hfreeze "GET").1,
        (find_isolated _ _ _ hfreeze "PUT").2 ?_⟩
      -- nothing at all is registered for this method
      intro before call after hcalls hmethod
      have hmem : call ∈ before ++ call :: after := by simp
      rw [← hcalls] at hmem
      simp only [List.mem_cons, List.not_mem_nil, or_false] at hmem
      rcases hmem with rfl | rfl | rfl | rfl <;> exact absurd hmethod (by decide)
  · cases hfound

end PathRouter
