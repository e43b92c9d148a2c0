import PathRouter.Proofs.Builder.Compiled

/-!
The order of the handlers in a chain. A chain starts as a copy of another one, which may come from
another path and by way of another method; all that it gets later is the handler being registered.
That handler is the last one of the store, and no chain has it before, so chains stay in the order
of registration. A handler stands in a chain twice only if its path was expanded to one path twice.
-/

namespace PathRouter

variable [SizeRule]

namespace MethodTables

def Lists (tables : MethodTables) (chain : Chain) : Prop :=
  ∃ kind key, (tables.table kind).get? key = some chain

variable {tables : MethodTables} {kind : TableKind} {path key : Path} {seed chain : Chain}
  {id : HandlerId} {paths : List Path}

omit [SizeRule] in
theorem not_lists_empty : ¬({} : MethodTables).Lists chain := by
  rintro ⟨kind, key, hget⟩
  cases kind <;> cases hget

theorem inherited_eq_nil_or_lists (h : tables.middleware.keys.Nodup) (path : Path) :
    tables.inherited path = [] ∨ tables.Lists (tables.inherited path) := by
  rw [inherited]
  cases hclosest : tables.middleware.closest path with
  | none => exact Or.inl rfl
  | some chain =>
      obtain ⟨key, hentry, -⟩ := RouteTable.exists_key_of_closest hclosest
      exact Or.inr ⟨.middleware, key, (OrderedMap.mem_entries_iff h).1 hentry⟩

/-- Seeding only copies chains. -/
theorem eq_nil_or_lists_of_seeded (h : tables.middleware.keys.Nodup) {other : TableKind}
    (hget : ((tables.seeded kind path).table other).get? key = some seed) :
    seed = [] ∨ tables.Lists seed := by
  rw [get?_seeded] at hget
  split at hget
  · cases hold : (tables.table kind).get? path with
    | none =>
        rw [hold, Option.getD_none, Option.some.injEq] at hget
        rw [← hget]
        exact inherited_eq_nil_or_lists h path
    | some chain =>
        rw [hold, Option.getD_some, Option.some.injEq] at hget
        exact Or.inr ⟨kind, path, by rw [hold, hget]⟩
  · exact Or.inr ⟨other, key, hget⟩

/-- Routes get the handler behind their first chain, as often as their path is given. -/
theorem get?_foldl_routed (other : TableKind) :
    ((paths.foldl (routed id) tables).table other).get? key =
      if other = .routes ∧ key ∈ paths then
        some (((tables.table .routes).get? key).getD (tables.inherited key) ++
          List.replicate (paths.count key) id)
      else (tables.table other).get? key := by
  induction paths generalizing tables with
  | nil => simp
  | cons path paths ih =>
      have hinherited : (tables.routed id path).inherited key = tables.inherited key := by
        rw [inherited, middleware_routed, inherited]
      have hrouted (other : TableKind) : ((tables.routed id path).table other).get? key =
          if other = .routes ∧ key = path then
            some (((tables.table .routes).get? path).getD (tables.inherited path) ++ [id])
          else (tables.table other).get? key := by
        rw [get?_routed, get?_seeded]
        split
        · rfl
        · rfl
      rw [List.foldl_cons, ih, hinherited, hrouted, hrouted]
      by_cases hother : other = .routes
      · by_cases hkey : key = path
        · subst hkey
          by_cases hmem : key ∈ paths
          · simp [hother, hmem, List.replicate_succ]
          · simp [hother, hmem, List.count_eq_zero_of_not_mem hmem]
        · simp [hother, hkey, Ne.symm hkey]
      · simp [hother]

/-- A chain after a registration is a chain from before, or none, with the new handler behind it;
more than once only if it is a route at a path that was given more than once. -/
theorem exists_seed_of_registered (h : tables.middleware.keys.Nodup) {wildcard : Option Wildcard}
    (hlists : (tables.registered path wildcard paths id).Lists chain) :
    ∃ seed n, chain = seed ++ List.replicate n id ∧ (seed = [] ∨ tables.Lists seed) ∧
      (wildcard.isSome ∨ paths.Nodup → n ≤ 1) := by
  obtain ⟨kind, key, hget⟩ := hlists
  cases wildcard with
  | some wildcard =>
      rw [registered, get?_attach, Option.map_eq_some_iff] at hget
      obtain ⟨seed, hseed, rfl⟩ := hget
      have hsource := eq_nil_or_lists_of_seeded h hseed
      split
      · exact ⟨seed, 1, rfl, hsource, fun _ => Nat.le_refl 1⟩
      · exact ⟨seed, 0, (List.append_nil seed).symm, hsource, fun _ => Nat.zero_le 1⟩
  | none =>
      rw [registered, get?_foldl_routed] at hget
      split at hget
      · obtain rfl := Option.some.inj hget
        refine ⟨_, paths.count key, rfl, ?_, ?_⟩
        · cases hold : (tables.table .routes).get? key with
          | none => exact inherited_eq_nil_or_lists h key
          | some chain => exact Or.inr ⟨.routes, key, hold⟩
        · rintro (hsome | hnodup)
          · cases hsome
          · exact List.nodup_iff_count_le_one.1 hnodup key
      · exact ⟨chain, 0, (List.append_nil chain).symm, Or.inr ⟨kind, key, hget⟩,
          fun _ => Nat.zero_le 1⟩

end MethodTables

namespace Builder

variable {α : Type} {builder after : Builder α}

/-- An accepted registration: the handler, and the paths that it was registered at. -/
structure Record (α : Type) where
  handler : α
  paths : List Path

/-- The paths that a builder registers a path at: a wildcard at itself, and any other path at those
that it stands for. -/
def places (builder : Builder α) (path : Path) : List Path :=
  if path.isWildcard then [path] else builder.expander.paths path

def recordOf (builder : Builder α) (call : Method × Path × α) : List (Record α) :=
  match (add call.1 call.2.1 call.2.2).run builder with
  | .ok _ _ => [⟨call.2.2, builder.places call.2.1.canonical⟩]
  | .error _ _ => []

def recordsOf (builder : Builder α) : List (Method × Path × α) → List (Record α)
  | [] => []
  | call :: calls => builder.recordOf call ++ (builder.attempt call).recordsOf calls

/-- The builder comes from the empty one by registrations and changes of the settings; the list has
the registrations that were accepted. -/
inductive Recorded : List (Record α) → Builder α → Prop
  | new : Recorded [] {}
  | accepted {records : List (Record α)} {builder after : Builder α} {method : Method}
      {path : Path} {handler : α} {log : Log} (h : Recorded records builder)
      (hrun : (add method path handler).run builder = .ok log after) :
      Recorded (records ++ [⟨handler, builder.places path.canonical⟩]) after
  | refused {records : List (Record α)} {builder after : Builder α} {method : Method}
      {path : Path} {handler : α} {e : RouterError} (h : Recorded records builder)
      (hrun : (add method path handler).run builder = .error e after) : Recorded records after
  | withConfig {records : List (Record α)} {builder : Builder α} (config : Config)
      (h : Recorded records builder) : Recorded records (builder.withConfig config)
  | withExpander {records : List (Record α)} {builder : Builder α} (expander : Expander)
      (h : Recorded records builder) : Recorded records (builder.withExpander expander)

variable {records : List (Record α)}

theorem Recorded.reachable (h : Recorded records builder) : builder.Reachable := by
  induction h with
  | new => exact .new
  | @accepted _ before after method path handler log _ hrun ih =>
      have hattempt : before.attempt (method, path, handler) = after := by rw [attempt, hrun]
      exact hattempt ▸ ih.attempt _
  | @refused _ before after method path handler e _ hrun ih =>
      have hattempt : before.attempt (method, path, handler) = after := by rw [attempt, hrun]
      exact hattempt ▸ ih.attempt _
  | withConfig config _ ih => exact ih.withConfig config
  | withExpander expander _ ih => exact ih.withExpander expander

theorem Recorded.attempt (h : Recorded records builder) (call : Method × Path × α) :
    Recorded (records ++ builder.recordOf call) (builder.attempt call) := by
  rw [recordOf, Builder.attempt]
  cases hrun : (add call.1 call.2.1 call.2.2).run builder with
  | ok log after => exact h.accepted hrun
  | error e after =>
      rw [List.append_nil]
      exact h.refused hrun

theorem Reachable.exists_recorded (h : builder.Reachable) :
    ∃ records, Recorded records builder := by
  induction h with
  | new => exact ⟨[], .new⟩
  | attempt call _ ih =>
      obtain ⟨records, hrecorded⟩ := ih
      exact ⟨_, hrecorded.attempt call⟩
  | withConfig config _ ih =>
      obtain ⟨records, hrecorded⟩ := ih
      exact ⟨records, hrecorded.withConfig config⟩
  | withExpander expander _ ih =>
      obtain ⟨records, hrecorded⟩ := ih
      exact ⟨records, hrecorded.withExpander expander⟩

theorem Recorded.addAll (h : Recorded records builder) (calls : List (Method × Path × α)) :
    Recorded (records ++ builder.recordsOf calls) (builder.addAll calls) := by
  induction calls generalizing records builder with
  | nil =>
      rw [recordsOf, List.append_nil]
      exact h
  | cons call calls ih =>
      rw [recordsOf, ← List.append_assoc]
      exact ih (h.attempt call)

theorem nodup_places {path : Path} {wildcard : Option Wildcard}
    (hwildcard : path.wildcard? = .ok wildcard) (h : (builder.places path).Nodup) :
    wildcard.isSome ∨ (builder.expander.paths path).Nodup := by
  cases wildcard with
  | some wildcard => exact Or.inl rfl
  | none =>
      rw [places, Path.wildcard?_eq_none hwildcard] at h
      exact Or.inr h

/-- The handlers are those of the records, and every chain has them in their order. -/
structure Ordered (records : List (Record α)) (builder : Builder α) : Prop where
  handlers : builder.handlers.toList = records.map Record.handler
  bounded : ∀ method tables chain, builder.tables.get? method = some tables →
    tables.Lists chain → ∀ id ∈ chain, id < builder.handlers.size
  sorted : ∀ method tables chain, builder.tables.get? method = some tables →
    tables.Lists chain → chain.Pairwise (· ≤ ·)
  strict : (∀ r ∈ records, r.paths.Nodup) → ∀ method tables chain,
    builder.tables.get? method = some tables → tables.Lists chain → chain.Pairwise (· < ·)

omit [SizeRule] in
theorem ordered_empty : Ordered [] ({} : Builder α) where
  handlers := rfl
  bounded method tables chain hget hlists := by
    rw [get?_empty hget] at hlists
    exact absurd hlists MethodTables.not_lists_empty
  sorted method tables chain hget hlists := by
    rw [get?_empty hget] at hlists
    exact absurd hlists MethodTables.not_lists_empty
  strict _ method tables chain hget hlists := by
    rw [get?_empty hget] at hlists
    exact absurd hlists MethodTables.not_lists_empty

/-- A chain after a registration is one from before, or starts as one and goes on with the last
handler. -/
theorem Added.exists_seed {method : Method} {path : Path} {wildcard : Option Wildcard} {handler : α}
    (hadded : Added method path wildcard handler builder after) (h : builder.WellFormed)
    (hwildcard : path.wildcard? = .ok wildcard) {other : Method} {tables : MethodTables}
    {chain : Chain} (hget : after.tables.get? other = some tables) (hlists : tables.Lists chain) :
    ∃ seed n, chain = seed ++ List.replicate n builder.handlers.size ∧
      (seed = [] ∨ ∃ source old, builder.tables.get? source = some old ∧ old.Lists seed) ∧
      ((builder.places path).Nodup → n ≤ 1) := by
  obtain ⟨source, old, hsource, rfl⟩ := hadded.exists_source h hget
  split at hlists
  · obtain ⟨seed, n, rfl, hseed, hn⟩ :=
      MethodTables.exists_seed_of_registered (h.tables_nodup source old hsource .middleware) hlists
    exact ⟨seed, n, rfl, hseed.imp_right fun hold => ⟨source, old, hsource, hold⟩,
      fun hnodup => hn (nodup_places hwildcard hnodup)⟩
  · exact ⟨chain, 0, (List.append_nil chain).symm, Or.inr ⟨source, old, hsource, hlists⟩,
      fun _ => Nat.zero_le 1⟩

omit [SizeRule] in
/-- The new handler comes behind all others. -/
theorem pairwise_append_replicate {R : Nat → Nat → Prop} {seed : Chain} {id n : Nat}
    (hseed : seed.Pairwise R) (hlast : ∀ i ∈ seed, R i id) (hn : n ≤ 1 ∨ R id id) :
    (seed ++ List.replicate n id).Pairwise R := by
  refine List.pairwise_append.2 ⟨hseed, List.pairwise_replicate.2 hn, fun i hi j hj => ?_⟩
  rw [List.eq_of_mem_replicate hj]
  exact hlast i hi

theorem Ordered.concat (h : Ordered records builder) (hwf : builder.WellFormed) {method : Method}
    {path : Path} {wildcard : Option Wildcard} {handler : α}
    (hwildcard : path.wildcard? = .ok wildcard)
    (hadded : Added method path wildcard handler builder after) :
    Ordered (records ++ [⟨handler, builder.places path⟩]) after := by
  have hsize : after.handlers.size = builder.handlers.size + 1 := by
    rw [hadded.handlers, Array.size_push]
  -- a chain that others start with has handlers from before only
  have hseed {seed : Chain} (hsource : seed = [] ∨ ∃ source old,
      builder.tables.get? source = some old ∧ old.Lists seed) :
      (∀ i ∈ seed, i < builder.handlers.size) ∧ seed.Pairwise (· ≤ ·) ∧
        ((∀ r ∈ records, r.paths.Nodup) → seed.Pairwise (· < ·)) := by
    rcases hsource with rfl | ⟨source, old, hget, hlists⟩
    · exact ⟨fun i hi => absurd hi List.not_mem_nil, List.Pairwise.nil, fun _ => List.Pairwise.nil⟩
    · exact ⟨h.bounded _ _ _ hget hlists, h.sorted _ _ _ hget hlists,
        fun hnodup => h.strict hnodup _ _ _ hget hlists⟩
  constructor
  case handlers => rw [hadded.handlers, Array.toList_push, h.handlers, List.map_append]; rfl
  case bounded =>
    intro other tables chain hget hlists i hi
    obtain ⟨seed, n, rfl, hsource, -⟩ := hadded.exists_seed hwf hwildcard hget hlists
    rw [hsize]
    rcases List.mem_append.1 hi with hold | hnew
    · exact Nat.lt_succ_of_lt ((hseed hsource).1 i hold)
    · rw [List.eq_of_mem_replicate hnew]
      exact Nat.lt_succ_self _
  case sorted =>
    intro other tables chain hget hlists
    obtain ⟨seed, n, rfl, hsource, -⟩ := hadded.exists_seed hwf hwildcard hget hlists
    obtain ⟨hlt, hsorted, -⟩ := hseed hsource
    exact pairwise_append_replicate hsorted (fun i hi => Nat.le_of_lt (hlt i hi))
      (Or.inr (Nat.le_refl _))
  case strict =>
    intro hnodup other tables chain hget hlists
    obtain ⟨seed, n, rfl, hsource, hn⟩ := hadded.exists_seed hwf hwildcard hget hlists
    obtain ⟨hlt, -, hstrict⟩ := hseed hsource
    have hplaces := hnodup _ (List.mem_append_right _ (List.mem_singleton.2 rfl))
    exact pairwise_append_replicate
      (hstrict fun r hr => hnodup r (List.mem_append_left _ hr)) hlt (Or.inl (hn hplaces))

theorem Recorded.ordered (h : Recorded records builder) : Ordered records builder := by
  induction h with
  | new => exact ordered_empty
  | accepted h hrun ih =>
      obtain ⟨wildcard, hwildcard, hadded⟩ := h.reachable.wellFormed.added_of_run hrun
      exact ih.concat h.reachable.wellFormed hwildcard hadded
  | refused h hrun ih => rwa [h.reachable.wellFormed.eq_of_run_error hrun]
  | withConfig config _ ih => exact ⟨ih.handlers, ih.bounded, ih.sorted, ih.strict⟩
  | withExpander expander _ ih => exact ⟨ih.handlers, ih.bounded, ih.sorted, ih.strict⟩

end Builder

end PathRouter
