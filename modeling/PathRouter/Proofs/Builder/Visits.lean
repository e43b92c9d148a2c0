import Mathlib
import PathRouter.Proofs.Builder.Reachable

/-!
The order in which a registration visits the methods. The listing of tables gives one order, and
other ways to keep the tables give others. A wildcard for all methods is where it might be told: a
method that has nothing to inherit from falls back on the middleware for all methods, and by then
these may or may not list the wildcard itself. But they list nothing else that covers it, or the
method would list that too; so the wildcard stands there without a handler yet, and there is nothing
to copy. Registrations in any orders therefore lead to the same builders.
-/

namespace PathRouter

section

variable [SizeRule]

/-- An order to visit methods in: a rearrangement of those that are to be visited. -/
structure VisitOrder where
  arrange : List Method → List Method
  perm : ∀ methods, (arrange methods).Perm methods

namespace VisitOrder

def byName : VisitOrder := ⟨fun methods => methods, fun _ => List.Perm.refl _⟩

def byNameDescending : VisitOrder := ⟨List.reverse, List.reverse_perm⟩

end VisitOrder

namespace Builder

variable {α : Type} {builder : Builder α}

/-- Registers a handler as `add` does, but visits the methods in the given order. -/
def addVia (order : VisitOrder) (method : Method) (path : Path) (handler : α) :
    Registration α Log :=
  prepare method path.canonical handler >>= fun (wildcard, id, specialized) => do
    let propagated ←
      register (order.arrange ((← get).targets method)) path.canonical wildcard id
    return specialized ++ propagated

theorem addVia_byName (method : Method) (path : Path) (handler : α) :
    addVia .byName method path handler = add method path handler :=
  (add_eq_bind method path handler).symm

omit [SizeRule] in
theorem onTables_perm {methods methods' : List Method} (h : methods.Perm methods')
    (f : MethodTables → MethodTables) :
    builder.onTables methods f = builder.onTables methods' f := by
  unfold onTables
  simp only [h.mem_iff]

theorem Searchable.run_register_arrange (h : builder.Searchable) (order : VisitOrder)
    (method : Method) {path : Path} {wildcard : Option Wildcard}
    (hpath : wildcard.isSome → path ∈ builder.wildcards.keys) (id : HandlerId) :
    ∃ log, (register (order.arrange (builder.targets method)) path wildcard id).run builder =
      .ok log (builder.onTables (builder.targets method)
        (MethodTables.registered path wildcard (builder.expander.paths path) id)) := by
  have hperm := order.perm (builder.targets method)
  have hbelongs : ∀ other ∈ order.arrange (builder.targets method), other ∈ builder.tables.keys :=
    fun other hother => (mem_targets.1 (hperm.mem_iff.1 hother)).1
  have hnodup : (order.arrange (builder.targets method)).Nodup :=
    hperm.nodup_iff.2 (nodup_targets h.nodup method)
  obtain ⟨log, hrun⟩ := h.run_register hbelongs hnodup hpath id
  exact ⟨log, by rw [hrun, onTables_perm hperm]⟩

/-- A registration that is not refused leads to one builder, whatever the order of the visits. -/
theorem WellFormed.exists_run_addVia (h : builder.WellFormed) (method : Method) {path : Path}
    {wildcard : Option Wildcard} (hwildcard : path.canonical.wildcard? = .ok wildcard)
    (handler : α) : ∃ after, ∀ order, ∃ log,
      (addVia order method path handler).run builder = .ok log after := by
  obtain ⟨specialized, prepared, hprepare, hprepared, hpath⟩ : ∃ specialized prepared,
      (prepare method path.canonical handler).run builder =
          .ok (wildcard, builder.handlers.size, specialized) prepared ∧
        prepared.Searchable ∧ (wildcard.isSome → path.canonical ∈ prepared.wildcards.keys) := by
    obtain ⟨specialized, cache, hprepare, hprepared, -, hpath⟩ :=
      h.run_prepare method hwildcard handler
    exact ⟨specialized, _, hprepare, hprepared, hpath⟩
  refine ⟨prepared.onTables (prepared.targets method) (MethodTables.registered path.canonical
    wildcard (prepared.expander.paths path.canonical) builder.handlers.size), fun order => ?_⟩
  obtain ⟨propagated, hregister⟩ :=
    hprepared.run_register_arrange order method hpath builder.handlers.size
  refine ⟨specialized ++ propagated, ?_⟩
  rw [addVia, run_bind_of_ok hprepare]
  exact run_bind_of_ok hregister

/-- A registration that visits the methods in some order does what `add` does, but for the log. -/
theorem WellFormed.discard_addVia (h : builder.WellFormed) (order : VisitOrder) (method : Method)
    (path : Path) (handler : α) : (discard (addVia order method path handler)).run builder =
      (discard (add method path handler)).run builder := by
  rw [← addVia_byName]
  cases hwildcard : path.canonical.wildcard? with
  | error e =>
      have hrefused (order : VisitOrder) :
          (addVia order method path handler).run builder = .error e builder :=
        run_bind_of_error (h.run_prepare_error method hwildcard handler)
      rw [run_discard_of_error (hrefused order), run_discard_of_error (hrefused .byName)]
  | ok wildcard =>
      obtain ⟨after, hrun⟩ := h.exists_run_addVia method hwildcard handler
      rw [run_discard_eq_ok.2 (hrun order), run_discard_eq_ok.2 (hrun .byName)]

def attemptVia (order : VisitOrder) (builder : Builder α) (call : Method × Path × α) : Builder α :=
  match (addVia order call.1 call.2.1 call.2.2).run builder with
  | .ok _ after => after
  | .error _ after => after

/-- The builders that a program can come by if every registration has an order of its own. -/
inductive ReachableVia : Builder α → Prop
  | new : ReachableVia {}
  | attempt {builder : Builder α} (order : VisitOrder) (call : Method × Path × α) :
    ReachableVia builder → ReachableVia (builder.attemptVia order call)
  | withConfig {builder : Builder α} (config : Config) :
    ReachableVia builder → ReachableVia (builder.withConfig config)
  | withExpander {builder : Builder α} (expander : Expander) :
    ReachableVia builder → ReachableVia (builder.withExpander expander)

theorem WellFormed.attemptVia_eq (h : builder.WellFormed) (order : VisitOrder)
    (call : Method × Path × α) : builder.attemptVia order call = builder.attempt call := by
  have hsame := h.discard_addVia order call.1 call.2.1 call.2.2
  rw [attemptVia, attempt]
  cases hadd : (add call.1 call.2.1 call.2.2).run builder with
  | ok log after =>
      rw [run_discard_eq_ok.2 ⟨log, hadd⟩] at hsame
      obtain ⟨log', hvia⟩ := run_discard_eq_ok.1 hsame
      rw [hvia]
  | error e after =>
      rw [run_discard_of_error hadd] at hsame
      cases hvia : (addVia order call.1 call.2.1 call.2.2).run builder with
      | ok log after' =>
          rw [run_discard_eq_ok.2 ⟨log, hvia⟩] at hsame
          cases hsame
      | error e' after' =>
          rw [run_discard_of_error hvia] at hsame
          cases hsame
          rfl

/-- Whatever orders its registrations have, a program comes by the same builders. -/
theorem reachableVia_iff : builder.ReachableVia ↔ builder.Reachable := by
  constructor
  · intro h
    induction h with
    | new => exact .new
    | attempt order call _ ih =>
        rw [ih.wellFormed.attemptVia_eq]
        exact ih.attempt call
    | withConfig config _ ih => exact ih.withConfig config
    | withExpander expander _ ih => exact ih.withExpander expander
  · intro h
    induction h with
    | new => exact .new
    | attempt call h ih =>
        rw [← h.wellFormed.attemptVia_eq .byName]
        exact ih.attempt .byName call
    | withConfig config _ ih => exact ih.withConfig config
    | withExpander expander _ ih => exact ih.withExpander expander

/-- The order of the visits can not be told from the builder. Whatever the orders up to here, the
next registration is accepted or refused alike in any two orders, and leads to the same tables of
all methods, with their paths in the same order and with the same chains. -/
theorem add_visit_order_unobservable (h : builder.ReachableVia) (order order' : VisitOrder)
    (method : Method) (path : Path) (handler : α) :
    (discard (addVia order method path handler)).run builder =
      (discard (addVia order' method path handler)).run builder := by
  have hwf := (reachableVia_iff.1 h).wellFormed
  rw [hwf.discard_addVia order, hwf.discard_addVia order']

end Builder

end

/-- A wildcard for all methods, when one method lists a wildcard that covers it, and another one has
nothing to inherit from. -/
theorem Builder.add_visit_order_unobservable_fallback : ∃ (builder after : Builder Nat),
    builder = (({} : Builder Nat).attemptVia .byNameDescending ("POST", "*".toList, 1)).attemptVia
      .byName ("GET", "/a/x".toList, 2) ∧
    builder.ReachableVia ∧
    (discard (addVia .byName allMethods "/a/*".toList 3)).run builder = .ok ⟨⟩ after ∧
    (discard (addVia .byNameDescending allMethods "/a/*".toList 3)).run builder = .ok ⟨⟩ after ∧
    (after.tables.get? "POST").map (·.middleware.get? "/a/*".toList) = some (some [0, 2]) ∧
    (after.tables.get? "GET").map (·.middleware.get? "/a/*".toList) = some (some [2]) := by
  have hreach : ((({} : Builder Nat).attemptVia .byNameDescending
      ("POST", "*".toList, 1)).attemptVia .byName ("GET", "/a/x".toList, 2)).ReachableVia :=
    (ReachableVia.new.attempt ..).attempt ..
  have hrun : (match (discard (addVia .byName allMethods "/a/*".toList 3)).run
      ((({} : Builder Nat).attemptVia .byNameDescending ("POST", "*".toList, 1)).attemptVia
        .byName ("GET", "/a/x".toList, 2)) with
    | .ok _ after => some ((after.tables.get? "POST").map (·.middleware.get? "/a/*".toList),
        (after.tables.get? "GET").map (·.middleware.get? "/a/*".toList))
    | .error _ _ => none) = some (some (some [0, 2]), some (some [2])) := by
    cbv
  split at hrun
  · next after hafter =>
      have hchains := Option.some.inj hrun
      rw [Prod.mk.injEq] at hchains
      refine ⟨_, after, rfl, hreach, hafter, ?_, hchains⟩
      rw [add_visit_order_unobservable hreach .byNameDescending .byName, hafter]
  · cases hrun

end PathRouter
