import Mathlib
import PathRouter.Proofs.Builder.Appended

/-!
What is registered for all methods reaches every method. A method gets its tables as copies of those
for all methods, and from then on every registration for all methods changes them, too. So it does
not matter whether a registration was there before the copies were made: its handler stands at all
its paths. A wildcard's does because the wildcard covers its own path. The tables of a method leave
nothing to take from those for all methods, therefore, and a method goes without a matcher of its
own just if nothing has been registered with it.
-/

namespace PathRouter

namespace MethodTables

def Has (tables : MethodTables) (kind : TableKind) (path : Path) (id : HandlerId) : Prop :=
  ∃ chain, (tables.table kind).get? path = some chain ∧ id ∈ chain

theorem Has.mem_keys {tables : MethodTables} {kind : TableKind} {key : Path} {id : HandlerId}
    (h : tables.Has kind key id) : key ∈ (tables.table kind).keys := by
  obtain ⟨chain, hget, -⟩ := h
  exact OrderedMap.mem_keys_of_get? hget

end MethodTables

/-- An accepted registration: its method, the table that it belongs to, the paths that it was made
at, and the position of its handler. -/
structure Addition where
  method : Method
  kind : TableKind
  paths : List Path
  id : HandlerId
  deriving DecidableEq, Repr

namespace Builder

variable {α : Type} {builder : Builder α} {additions : List Addition}

/-- Every registration has reached all methods that it is for. -/
structure Delivered (additions : List Addition) (builder : Builder α) : Prop where
  /-- The methods with tables are those that were registered with. -/
  keys : ∀ method, method ∈ builder.tables.keys ↔
    method = allMethods ∨ ∃ addition ∈ additions, addition.method = method
  placed : ∀ addition ∈ additions, addition.paths ≠ []
  has : ∀ addition ∈ additions, ∀ method tables, builder.tables.get? method = some tables →
    addition.method = method ∨ addition.method = allMethods →
    ∀ path ∈ addition.paths, tables.Has addition.kind path addition.id

theorem delivered_empty : Delivered [] ({} : Builder α) where
  keys method := by
    rw [show ({} : Builder α).tables.keys = [allMethods] from rfl, List.mem_singleton]
    simp
  placed addition h := by cases h
  has addition h := by cases h

theorem Delivered.withSettings (h : Delivered additions builder) (config : Config)
    (expander : Expander) : Delivered additions { builder with config, expander } :=
  ⟨h.keys, h.placed, h.has⟩

/-- A method that gets its tables has none of its own registrations; and those for all methods are
in the tables that it gets. -/
theorem Delivered.has_tablesFor (h : Delivered additions builder) {addition : Addition}
    (haddition : addition ∈ additions) {method other : Method} {tables : MethodTables}
    (hget : builder.tablesFor method other = some tables)
    (hfor : addition.method = other ∨ addition.method = allMethods) {path : Path}
    (hpath : path ∈ addition.paths) : tables.Has addition.kind path addition.id := by
  rw [tablesFor] at hget
  split at hget
  · next hother =>
      cases hown : builder.tables.get? method with
      | some own =>
          rw [hown, Option.getD_some, Option.some.injEq] at hget
          exact h.has addition haddition other tables (by rw [hother, hown, hget]) hfor path hpath
      | none =>
          have hall : addition.method = allMethods := hfor.resolve_left fun heq =>
            OrderedMap.get?_eq_none_iff.1 hown
              ((h.keys method).2 (Or.inr ⟨addition, haddition, heq.trans hother⟩))
          obtain ⟨shared, hshared⟩ := OrderedMap.exists_get?_of_mem_keys
            ((h.keys allMethods).2 (Or.inl rfl))
          rw [hown, hshared, Option.getD_none, Option.getD_some, Option.some.injEq] at hget
          exact h.has addition haddition allMethods tables (by rw [hshared, hget]) (Or.inr hall)
            path hpath
  · exact h.has addition haddition other tables hget hfor path hpath

theorem places_ne_nil (builder : Builder α) (path : Path) : builder.places path ≠ [] := by
  rw [places]
  split
  · exact List.cons_ne_nil _ _
  · rw [Expander.paths]
    split
    · exact List.cons_ne_nil _ _
    · exact List.cons_ne_nil _ _

theorem Delivered.hasOwnMatcher_iff (h : Delivered additions builder) {method : Method} :
    builder.hasOwnMatcher method = true ↔
      method = allMethods ∨ ∃ addition ∈ additions, addition.method = method := by
  rw [Builder.hasOwnMatcher_iff]
  constructor
  · rintro (hall | ⟨tables, kind, key, hget, -⟩)
    · exact Or.inl hall
    · exact (h.keys method).1 (OrderedMap.mem_keys_of_get? hget)
  · rintro (hall | ⟨addition, haddition, hmethod⟩)
    · exact Or.inl hall
    · obtain ⟨tables, hget⟩ := OrderedMap.exists_get?_of_mem_keys
        ((h.keys method).2 (Or.inr ⟨addition, haddition, hmethod⟩))
      obtain ⟨path, hpath⟩ := List.exists_mem_of_ne_nil _ (h.placed addition haddition)
      exact Or.inr ⟨tables, addition.kind, path, hget,
        (h.has addition haddition method tables hget (Or.inl hmethod) path hpath).mem_keys⟩

end Builder

section

variable [SizeRule]

namespace MethodTables

variable {tables : MethodTables} {kind : TableKind} {path key : Path} {id other : HandlerId}
  {wildcard : Option Wildcard} {paths : List Path}

/-- Whatever is registered next, a handler stays where it is. -/
theorem Has.registered (h : tables.Has kind key other) :
    (tables.registered path wildcard paths id).Has kind key other := by
  refine ⟨_, get?_registered_of_mem_keys (keys_prefix_registered.subset h.mem_keys), ?_⟩
  obtain ⟨chain, hget, hmem⟩ := h
  rw [chainFrom, hget, Option.getD_some]
  exact List.mem_append_left _ hmem

theorem timesAppended_pos (hwildcard : path.wildcard? = .ok wildcard)
    (hkey : key ∈ if path.isWildcard then [path] else paths) :
    0 < timesAppended wildcard paths path.kind key := by
  cases wildcard with
  | some compiled =>
      rw [if_pos (Path.wildcard?_eq_some hwildcard).1, List.mem_singleton] at hkey
      rw [timesAppended, hkey, if_pos (Path.covers_of_wildcard?_eq hwildcard)]
      exact Nat.one_pos
  | none =>
      have hkind : path.kind = .routes := Path.kind_eq hwildcard
      rw [Path.wildcard?_eq_none hwildcard] at hkey
      rw [hkind]
      exact List.count_pos_iff.2 hkey

theorem has_registered (hwildcard : path.wildcard? = .ok wildcard)
    (hkey : key ∈ if path.isWildcard then [path] else paths) :
    (tables.registered path wildcard paths id).Has path.kind key id := by
  have hlisted : key ∈ ((tables.registered path wildcard paths id).table path.kind).keys := by
    refine mem_keys_registered.2 (Or.inr ?_)
    cases wildcard with
    | some compiled =>
        rw [if_pos (Path.wildcard?_eq_some hwildcard).1, List.mem_singleton] at hkey
        exact ⟨Path.kind_eq hwildcard, hkey⟩
    | none =>
        rw [Path.wildcard?_eq_none hwildcard] at hkey
        exact ⟨Path.kind_eq hwildcard, hkey⟩
  refine ⟨_, get?_registered_of_mem_keys hlisted, ?_⟩
  exact List.mem_append_right _ (List.mem_replicate.2
    ⟨Nat.ne_of_gt (timesAppended_pos hwildcard hkey), rfl⟩)

end MethodTables

inductive Operation (α : Type)
  | add (method : Method) (path : Path) (handler : α)
  | withConfig (config : Config)
  | withExpander (expander : Expander)

namespace Builder

variable {α : Type} {builder after : Builder α}

def perform (builder : Builder α) : Operation α → Builder α
  | .add method path handler => builder.attempt (method, path, handler)
  | .withConfig config => builder.withConfig config
  | .withExpander expander => builder.withExpander expander

def performAll (builder : Builder α) (operations : List (Operation α)) : Builder α :=
  operations.foldl perform builder

theorem performAll_concat (builder : Builder α) (operations : List (Operation α))
    (operation : Operation α) : builder.performAll (operations ++ [operation]) =
      (builder.performAll operations).perform operation := by
  rw [performAll, List.foldl_append]
  rfl

/-- The registrations that an operation makes: at most one, and none if it is refused. -/
def additionsOf (builder : Builder α) : Operation α → List Addition
  | .add method path handler =>
    match (add method path handler).run builder with
    | .ok _ _ =>
      [⟨method, path.canonical.kind, builder.places path.canonical, builder.handlers.size⟩]
    | .error _ _ => []
  | .withConfig _ => []
  | .withExpander _ => []

def additions (builder : Builder α) : List (Operation α) → List Addition
  | [] => []
  | operation :: operations =>
    builder.additionsOf operation ++ (builder.perform operation).additions operations

theorem additions_concat (builder : Builder α) (operations : List (Operation α))
    (operation : Operation α) : builder.additions (operations ++ [operation]) =
      builder.additions operations ++ (builder.performAll operations).additionsOf operation := by
  induction operations generalizing builder with
  | nil => exact List.append_nil _
  | cons first operations ih =>
      rw [List.cons_append, additions, ih, additions, List.append_assoc]
      rfl

theorem Reachable.perform (h : builder.Reachable) (operation : Operation α) :
    (builder.perform operation).Reachable := by
  cases operation with
  | add method path handler => exact h.attempt (method, path, handler)
  | withConfig config => exact h.withConfig config
  | withExpander expander => exact h.withExpander expander

theorem reachable_iff_performAll :
    builder.Reachable ↔ ∃ operations, builder = ({} : Builder α).performAll operations := by
  constructor
  · intro h
    induction h with
    | new => exact ⟨[], rfl⟩
    | attempt call _ ih =>
        obtain ⟨operations, rfl⟩ := ih
        exact ⟨operations ++ [.add call.1 call.2.1 call.2.2], by rw [performAll_concat]; rfl⟩
    | withConfig config _ ih =>
        obtain ⟨operations, rfl⟩ := ih
        exact ⟨operations ++ [.withConfig config], by rw [performAll_concat]; rfl⟩
    | withExpander expander _ ih =>
        obtain ⟨operations, rfl⟩ := ih
        exact ⟨operations ++ [.withExpander expander], by rw [performAll_concat]; rfl⟩
  · rintro ⟨operations, rfl⟩
    induction operations using List.reverseRecOn with
    | nil => exact .new
    | append_singleton operations operation ih =>
        rw [performAll_concat]
        exact ih.perform operation

variable {additions : List Addition}

/-- An accepted registration reaches what it is for, and takes nothing away. -/
theorem Delivered.concat (h : Delivered additions builder) {method : Method} {path : Path}
    {wildcard : Option Wildcard} {handler : α} (hwildcard : path.wildcard? = .ok wildcard)
    (hadded : Added method path wildcard handler builder after) :
    Delivered (additions ++ [⟨method, path.kind, builder.places path, builder.handlers.size⟩])
      after := by
  constructor
  case keys =>
    intro other
    rw [hadded.mem_keys, h.keys]
    simp only [List.mem_append, List.mem_singleton, or_and_right, exists_or, exists_eq_left,
      or_assoc, eq_comm (a := method)]
  case placed =>
    intro addition haddition
    rcases List.mem_append.1 haddition with hold | hnew
    · exact h.placed addition hold
    · rw [List.mem_singleton.1 hnew]
      exact builder.places_ne_nil path
  case has =>
    intro addition haddition other tables hget hfor key hkey
    rw [hadded.tables, Option.map_eq_some_iff] at hget
    obtain ⟨old, hold, rfl⟩ := hget
    rcases List.mem_append.1 haddition with hbefore | hnew
    · have hhas := h.has_tablesFor hbefore hold hfor hkey
      split
      · exact hhas.registered
      · exact hhas
    · obtain rfl := List.mem_singleton.1 hnew
      rw [if_pos (hfor.symm.imp_right Eq.symm)]
      exact MethodTables.has_registered hwildcard hkey

theorem delivered_performAll (operations : List (Operation α)) :
    Delivered (({} : Builder α).additions operations) (({} : Builder α).performAll operations) := by
  induction operations using List.reverseRecOn with
  | nil => exact delivered_empty
  | append_singleton operations operation ih =>
      rw [additions_concat, performAll_concat]
      cases operation with
      | add method path handler =>
          have hwf := (reachable_iff_performAll.2 ⟨operations, rfl⟩).wellFormed
          rw [additionsOf, perform, attempt]
          cases hrun : (add method path handler).run (({} : Builder α).performAll operations) with
          | ok log after =>
              obtain ⟨wildcard, hwildcard, hadded⟩ := hwf.added_of_run hrun
              exact ih.concat hwildcard hadded
          | error e after =>
              rw [hwf.eq_of_run_error hrun, List.append_nil]
              exact ih
      | withConfig config =>
          rw [additionsOf, List.append_nil]
          exact ih.withSettings config _
      | withExpander expander =>
          rw [additionsOf, List.append_nil]
          exact ih.withSettings _ expander

/-- What is registered for all methods reaches every method. A method with tables of its own lists
all paths that are listed for all methods; and every registration with it or for all methods, be it
from before or after the method got its tables, has its handler in the chains of all its paths. So
its matcher takes nothing but its own tables; and the methods that go without a matcher of their own
are those that nothing was registered with. -/
theorem catch_all_reaches_all (operations : List (Operation α)) :
    let builder := ({} : Builder α).performAll operations
    let additions := ({} : Builder α).additions operations
    (∀ method tables, builder.tables.get? method = some tables →
      (∃ shared, builder.tables.get? allMethods = some shared ∧
        ∀ kind, (shared.table kind).keys ⊆ (tables.table kind).keys) ∧
      (∀ addition ∈ additions, addition.method = method ∨ addition.method = allMethods →
        ∀ path ∈ addition.paths, tables.Has addition.kind path addition.id) ∧
      ∀ kind, builder.tableEntries method kind = (tables.table kind).entries) ∧
    ∀ method log result log', (builder.matcherFor method).run log = .ok result log' →
      (result = none ↔
        method ≠ allMethods ∧ ∀ addition ∈ additions, addition.method ≠ method) := by
  intro builder additions
  have hdelivered : Delivered additions builder := delivered_performAll operations
  have hwf : builder.WellFormed := (reachable_iff_performAll.2 ⟨operations, rfl⟩).wellFormed
  constructor
  · intro method tables hget
    obtain ⟨shared, hshared, hsub⟩ := hwf.shared
    exact ⟨⟨shared, hshared, hsub method tables hget⟩,
      fun addition haddition => hdelivered.has addition haddition method tables hget,
      hwf.tableEntries_eq hget⟩
  · intro method log result log' hrun
    have hnone : result = none ↔ ¬builder.hasOwnMatcher method = true := by
      rcases matcherFor_eq_ok hrun with ⟨hown, rfl⟩ | ⟨hown, matcher, rfl, -⟩
      · simp [hown]
      · simp [hown]
    rw [hnone, hdelivered.hasOwnMatcher_iff, not_or, not_exists]
    simp only [not_and, ne_eq]

end Builder

end

/-- A wildcard from before a method gets its tables, and an expanded route from after that. -/
theorem Builder.catch_all_reaches_all_expanded :
    ∃ (operations : List (Operation Nat)) (tables : MethodTables),
      operations = [.withExpander fun path =>
          if path = "/b?".toList then some ["/b".toList, "/b/".toList] else none,
        .add "ALL" "/a*".toList 10, .add "GET" "/x".toList 20, .add "ALL" "/b?".toList 30] ∧
      (({} : Builder Nat).performAll operations).tables.get? "GET" = some tables ∧
      tables.Has .middleware "/a*".toList 0 ∧ tables.Has .routes "/b/".toList 2 ∧
      (({} : Builder Nat).performAll operations).tableEntries "GET" .middleware =
        tables.middleware.entries ∧
      ((({} : Builder Nat).performAll operations).matcherFor "POST").run [] = .ok none [] ∧
      ∀ addition ∈ ({} : Builder Nat).additions operations, addition.method ≠ "POST" := by
  obtain ⟨operations, hoperations, hadditions, hget, hpost⟩ :
      ∃ operations : List (Operation Nat),
        operations = [.withExpander fun path =>
            if path = "/b?".toList then some ["/b".toList, "/b/".toList] else none,
          .add "ALL" "/a*".toList 10, .add "GET" "/x".toList 20, .add "ALL" "/b?".toList 30] ∧
        ({} : Builder Nat).additions operations =
          [⟨"ALL", .middleware, ["/a*".toList], 0⟩, ⟨"GET", .routes, ["/x".toList], 1⟩,
            ⟨"ALL", .routes, ["/b".toList, "/b/".toList], 2⟩] ∧
        ((({} : Builder Nat).performAll operations).tables.get? "GET").isSome ∧
        ((({} : Builder Nat).performAll operations).matcherFor "POST").run [] = .ok none [] :=
    ⟨_, rfl, by cbv, by cbv, by cbv⟩
  obtain ⟨tables, htables⟩ := Option.isSome_iff_exists.1 hget
  obtain ⟨hreaches, hnone⟩ := catch_all_reaches_all operations
  obtain ⟨-, hhas, hentries⟩ := hreaches "GET" tables htables
  refine ⟨operations, tables, hoperations, htables, ?_, ?_, hentries .middleware, hpost,
    ((hnone "POST" [] none [] hpost).1 rfl).2⟩
  · rw [hadditions] at hhas
    exact hhas _ List.mem_cons_self (Or.inr rfl) _ List.mem_cons_self
  · rw [hadditions] at hhas
    exact hhas ⟨"ALL", .routes, ["/b".toList, "/b/".toList], 2⟩ (by simp) (Or.inr rfl) _ (by simp)

end PathRouter
