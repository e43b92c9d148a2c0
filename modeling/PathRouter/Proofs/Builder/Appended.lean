import Mathlib
import PathRouter.Proofs.Builder.Order

/-!
What one registration appends, and where. A method that the registration is for keeps all paths of
its tables in their places, and the new paths come behind them. A chain keeps what it has; a
wildcard appends its handler to the chains of the paths that it covers, once and in both tables, and
a route at the paths that it stands for, as often as each of them is given. A path that is new goes
on from the chain that it inherits. No other method notices.
-/

namespace PathRouter

section

variable [SizeRule]

theorem Path.covers_of_wildcard?_eq {path : Path} {wildcard : Wildcard}
    (h : path.wildcard? = .ok (some wildcard)) : wildcard.covers path = true :=
  (covers_ofPath (wildcard?_eq_some h).2).2 path.covers_self

namespace MethodTables

/-- The chain that a path has in the table of a kind, or would start with there. -/
def chainFrom (tables : MethodTables) (kind : TableKind) (path : Path) : Chain :=
  ((tables.table kind).get? path).getD (tables.inherited path)

def timesAppended (wildcard : Option Wildcard) (paths : List Path) (kind : TableKind)
    (key : Path) : Nat :=
  match wildcard, kind with
  | some wildcard, _ => if wildcard.covers key then 1 else 0
  | none, .routes => paths.count key
  | none, .middleware => 0

/-- The tables `new` come from the tables `old` by appending the handler `id`, where a registration
of `path` has to: as a wildcard, or else as a route at `paths`. -/
structure Appends (old : MethodTables) (path : Path) (wildcard : Option Wildcard)
    (paths : List Path) (id : HandlerId) (new : MethodTables) : Prop where
  /-- The paths listed before keep their places. -/
  keys_prefix : ∀ kind, (old.table kind).keys <+: (new.table kind).keys
  /-- Only the paths of the registration are listed anew. -/
  mem_keys : ∀ kind key, key ∈ (new.table kind).keys ↔ key ∈ (old.table kind).keys ∨
    if wildcard.isSome then kind = .middleware ∧ key = path else kind = .routes ∧ key ∈ paths
  /-- A path that was listed keeps its chain, and the handler comes behind it. -/
  kept : ∀ kind key chain, (old.table kind).get? key = some chain → (new.table kind).get? key =
    some (chain ++ List.replicate (timesAppended wildcard paths kind key) id)
  /-- A path that is new goes on from what it inherits. -/
  inherited : ∀ kind key, key ∉ (old.table kind).keys → key ∈ (new.table kind).keys →
    (new.table kind).get? key = some (old.inherited key ++
      List.replicate (timesAppended wildcard paths kind key) id)
  /-- No chain has the handler from anywhere else. -/
  count : ∀ kind key chain, (new.table kind).get? key = some chain →
    chain.count id = timesAppended wildcard paths kind key
  /-- A wildcard covers its own path, so its handler stands there. -/
  covers_self : ∀ compiled, wildcard = some compiled → compiled.covers path = true

variable {tables : MethodTables} {kind : TableKind} {path key : Path} {id : HandlerId}
  {wildcard : Option Wildcard} {paths : List Path} {chain : Chain}

/-! ### Registrations append -/

theorem keys_prefix_seeded (other : TableKind) :
    (tables.table other).keys <+: ((tables.seeded kind path).table other).keys := by
  rw [keys_seeded]
  split
  · exact List.prefix_append ..
  · exact List.prefix_rfl

theorem keys_prefix_registered :
    (tables.table kind).keys <+: ((tables.registered path wildcard paths id).table kind).keys := by
  cases wildcard with
  | some wildcard =>
      rw [registered, keys_attach]
      exact keys_prefix_seeded kind
  | none =>
      rw [registered]
      induction paths generalizing tables with
      | nil => exact List.prefix_rfl
      | cons path paths ih =>
          have hfirst : (tables.table kind).keys <+: ((tables.routed id path).table kind).keys := by
            rw [keys_routed]
            exact keys_prefix_seeded kind
          exact hfirst.trans ih

theorem get?_seeded_eq_chainFrom {other : TableKind}
    (hget : ((tables.seeded kind path).table other).get? key = some chain) :
    chain = tables.chainFrom other key := by
  rw [get?_seeded] at hget
  split at hget
  · next hself =>
      rw [hself.1, hself.2]
      exact (Option.some.inj hget).symm
  · rw [chainFrom, hget, Option.getD_some]

theorem get?_registered
    (hget : ((tables.registered path wildcard paths id).table kind).get? key = some chain) :
    chain = tables.chainFrom kind key ++
      List.replicate (timesAppended wildcard paths kind key) id := by
  cases wildcard with
  | some wildcard =>
      rw [registered, get?_attach, Option.map_eq_some_iff] at hget
      obtain ⟨seed, hseed, rfl⟩ := hget
      rw [get?_seeded_eq_chainFrom hseed, timesAppended]
      split
      · rfl
      · exact (List.append_nil _).symm
  | none =>
      rw [registered, get?_foldl_routed] at hget
      split at hget
      · next hrouted =>
          rw [hrouted.1]
          exact (Option.some.inj hget).symm
      · next hother =>
          have hnot : timesAppended none paths kind key = 0 := by
            cases kind with
            | middleware => rfl
            | routes => exact List.count_eq_zero_of_not_mem fun hmem => hother ⟨rfl, hmem⟩
          rw [hnot, chainFrom, hget, Option.getD_some, List.replicate_zero, List.append_nil]

theorem get?_registered_of_mem_keys
    (hkey : key ∈ ((tables.registered path wildcard paths id).table kind).keys) :
    ((tables.registered path wildcard paths id).table kind).get? key = some
      (tables.chainFrom kind key ++ List.replicate (timesAppended wildcard paths kind key) id) := by
  obtain ⟨chain, hget⟩ := OrderedMap.exists_get?_of_mem_keys hkey
  rw [hget, get?_registered hget]

theorem chainFrom_eq_nil_or_lists (h : tables.middleware.keys.Nodup) (kind : TableKind)
    (key : Path) : tables.chainFrom kind key = [] ∨ tables.Lists (tables.chainFrom kind key) := by
  rw [chainFrom]
  cases hget : (tables.table kind).get? key with
  | none => exact inherited_eq_nil_or_lists h key
  | some chain => exact Or.inr ⟨kind, key, hget⟩

/-- A registration appends its handler, and does so at the right places. -/
theorem appends_registered (hwildcard : path.wildcard? = .ok wildcard)
    (hnew : ∀ kind key, id ∉ tables.chainFrom kind key) :
    tables.Appends path wildcard paths id (tables.registered path wildcard paths id) := by
  constructor
  case keys_prefix => exact fun kind => keys_prefix_registered
  case mem_keys => exact fun kind key => mem_keys_registered
  case kept =>
    intro kind key chain hold
    have hkey : key ∈ ((tables.registered path wildcard paths id).table kind).keys :=
      keys_prefix_registered.subset (OrderedMap.mem_keys_of_get? hold)
    rw [get?_registered_of_mem_keys hkey, chainFrom, hold, Option.getD_some]
  case inherited =>
    intro kind key hnone hkey
    rw [get?_registered_of_mem_keys hkey, chainFrom, OrderedMap.get?_eq_none_iff.2 hnone,
      Option.getD_none]
  case count =>
    intro kind key chain hchain
    rw [get?_registered hchain, List.count_append, List.count_eq_zero_of_not_mem (hnew kind key),
      Nat.zero_add, List.count_replicate_self]
  case covers_self =>
    rintro compiled rfl
    exact Path.covers_of_wildcard?_eq hwildcard

end MethodTables

namespace Builder

variable {α : Type} {builder after : Builder α}

/-- The place of the next handler stands in no chain yet. -/
theorem Reachable.not_mem_chainFrom (h : builder.Reachable) {method : Method}
    {tables : MethodTables} (hget : builder.tables.get? method = some tables) (kind : TableKind)
    (key : Path) : builder.handlers.size ∉ tables.chainFrom kind key := by
  intro hmem
  rcases MethodTables.chainFrom_eq_nil_or_lists
    (h.wellFormed.tables_nodup method tables hget .middleware) kind key with hnil | hlists
  · rw [hnil] at hmem
    cases hmem
  · obtain ⟨records, hrecorded⟩ := h.exists_recorded
    exact Nat.lt_irrefl _ (hrecorded.ordered.bounded method tables _ hget hlists _ hmem)

/-- One registration only appends. The tables of every method that it is for, where a method without
tables of its own starts with those for all methods, keep their paths and their chains, and get the
handler just where the path says; the tables of all other methods stay as they are. -/
theorem add_only_appends (h : builder.Reachable) {method : Method} {path : Path} {handler : α}
    {log : Log} (hrun : (add method path handler).run builder = .ok log after) :
    ∃ wildcard, path.canonical.wildcard? = .ok wildcard ∧
      (∀ other old, method = allMethods ∨ other = method →
        builder.tablesFor method other = some old →
        ∃ new, after.tables.get? other = some new ∧ old.Appends path.canonical wildcard
          (builder.expander.paths path.canonical) builder.handlers.size new) ∧
      ∀ other, other ≠ method → (method = allMethods → builder.tables.get? other = none) →
        after.tables.get? other = builder.tables.get? other := by
  have hwf := h.wellFormed
  obtain ⟨wildcard, hwildcard, hadded⟩ := hwf.added_of_run hrun
  refine ⟨wildcard, hwildcard, fun other old htarget hold => ?_, fun other hother hnone => ?_⟩
  · obtain ⟨source, hsource⟩ := hwf.exists_source hold
    exact ⟨_, by rw [hadded.tables, hold, Option.map_some, if_pos htarget],
      MethodTables.appends_registered hwildcard (h.not_mem_chainFrom hsource)⟩
  · rw [hadded.tables, tablesFor, if_neg hother]
    by_cases hall : method = allMethods
    · rw [hnone hall, Option.map_none]
    · simp only [hall, hother, or_self, if_false, Option.map_id']

end Builder

end

/-- A wildcard for a method that gets its tables by this very registration. -/
theorem Builder.add_only_appends_specialized : ∃ (builder after : Builder Nat) (log : Log)
    (wildcard : Wildcard) (old new : MethodTables),
    builder = ({} : Builder Nat).addAll [("ALL", "/a/*".toList, 10), ("GET", "/a/x".toList, 20),
      ("ALL", "/b".toList, 30)] ∧
    builder.Reachable ∧ builder.tables.get? "POST" = none ∧
    (add "POST" "/*".toList 40).run builder = .ok log after ∧
    builder.tables.get? allMethods = some old ∧ after.tables.get? "POST" = some new ∧
    old.Appends "*".toList (some wildcard) ["*".toList] 3 new ∧
    after.tables.get? "GET" = builder.tables.get? "GET" := by
  have hreach := (Reachable.new (α := Nat)).addAll [("ALL", "/a/*".toList, 10),
    ("GET", "/a/x".toList, 20), ("ALL", "/b".toList, 30)]
  have hnone : (({} : Builder Nat).addAll [("ALL", "/a/*".toList, 10), ("GET", "/a/x".toList, 20),
      ("ALL", "/b".toList, 30)]).tables.get? "POST" = none := by
    cbv
  have hsize : (({} : Builder Nat).addAll [("ALL", "/a/*".toList, 10), ("GET", "/a/x".toList, 20),
      ("ALL", "/b".toList, 30)]).handlers.size = 3 := by
    cbv
  have hcanonical : Path.canonical "/*".toList = "*".toList := by cbv
  have hpaths : (({} : Builder Nat).addAll [("ALL", "/a/*".toList, 10), ("GET", "/a/x".toList, 20),
      ("ALL", "/b".toList, 30)]).expander.paths "*".toList = ["*".toList] := by
    cbv
  have hpath : (Path.canonical "/*".toList).wildcard? = .ok (some .everything) := by cbv
  obtain ⟨log, after, hrun, -⟩ := hreach.wellFormed.exists_run_add "POST" hpath 40
  obtain ⟨old, hold, -⟩ := hreach.wellFormed.shared
  obtain ⟨wildcard, hwildcard, htargets, hothers⟩ := add_only_appends hreach hrun
  rw [hpath, Except.ok.injEq] at hwildcard
  obtain ⟨new, hnew, happends⟩ := htargets "POST" old (Or.inr rfl) (by
    rw [tablesFor, if_pos rfl, hnone, hold]
    rfl)
  rw [← hwildcard, hsize, hcanonical, hpaths] at happends
  exact ⟨_, after, log, .everything, old, new, rfl, hreach, hnone, hrun, hold, hnew, happends,
    hothers "GET" (by decide) (by decide)⟩

end PathRouter
