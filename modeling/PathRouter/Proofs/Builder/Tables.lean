import PathRouter.Builder.Registration
import PathRouter.Proofs.Wildcard.Cache

/-!
What a registration does to the tables of one method, apart from the builder around them. A path is
seeded with the chain of its closest middleware, unless it is listed; a wildcard is attached to what
it covers; and a route gets the handler at each of its paths. For each of these, the keys and the
chains afterwards are given by those before.
-/

namespace PathRouter

namespace MethodTables

variable {tables : MethodTables} {kind : TableKind} {path key : Path}

@[simp] theorem table_modifyTable (kind other : TableKind) (f : RouteTable → RouteTable) :
    (tables.modifyTable kind f).table other =
      if other = kind then f (tables.table other) else tables.table other := by
  cases kind <;> cases other <;> rfl

/-! ### Attaching a wildcard -/

theorem table_attach (wildcard : Wildcard) (id : HandlerId) :
    (tables.attach wildcard id).table kind = (tables.table kind).update fun key chain =>
      if wildcard.covers key then chain ++ [id] else chain := by
  cases kind <;> rfl

@[simp] theorem keys_attach (wildcard : Wildcard) (id : HandlerId) :
    ((tables.attach wildcard id).table kind).keys = (tables.table kind).keys := by
  rw [table_attach, OrderedMap.keys_update]

theorem get?_attach (wildcard : Wildcard) (id : HandlerId) :
    ((tables.attach wildcard id).table kind).get? key = ((tables.table kind).get? key).map
      fun chain => if wildcard.covers key then chain ++ [id] else chain := by
  rw [table_attach, OrderedMap.get?_update]

/-! ### Seeding -/

variable [SizeRule]

/-- The chain of the closest middleware of the method itself. -/
def inherited (tables : MethodTables) (path : Path) : Chain :=
  (tables.middleware.closest path).getD []

def seeded (kind : TableKind) (path : Path) (tables : MethodTables) : MethodTables :=
  if (tables.table kind).contains path then tables
  else tables.modifyTable kind (·.set path (tables.inherited path))

def routed (id : HandlerId) (tables : MethodTables) (path : Path) : MethodTables :=
  (tables.seeded .routes path).modifyTable .routes (·.modify path (· ++ [id]))

/-- Registers a wildcard, or else a route at each of the paths. -/
def registered (path : Path) (wildcard : Option Wildcard) (paths : List Path) (id : HandlerId)
    (tables : MethodTables) : MethodTables :=
  match wildcard with
  | some wildcard => (tables.seeded .middleware path).attach wildcard id
  | none => paths.foldl (routed id) tables

theorem keys_seeded (other : TableKind) : ((tables.seeded kind path).table other).keys =
    if other = kind ∧ path ∉ (tables.table kind).keys then (tables.table other).keys ++ [path]
    else (tables.table other).keys := by
  rw [seeded]
  by_cases hknown : path ∈ (tables.table kind).keys
  · rw [if_pos ((OrderedMap.contains_iff_mem_keys ..).2 hknown), if_neg (by simp [hknown])]
  · rw [if_neg fun h => hknown ((OrderedMap.contains_iff_mem_keys ..).1 h), table_modifyTable]
    by_cases hkind : other = kind
    · subst hkind
      simp [OrderedMap.keys_set, hknown]
    · simp [hkind]

theorem mem_keys_seeded {other : TableKind} : key ∈ ((tables.seeded kind path).table other).keys ↔
    key ∈ (tables.table other).keys ∨ other = kind ∧ key = path := by
  rw [keys_seeded]
  split
  · next h => simp [h.1]
  · next h =>
      rw [not_and, not_not] at h
      constructor
      · exact Or.inl
      · rintro (hmem | ⟨rfl, rfl⟩)
        · exact hmem
        · exact h rfl

theorem nodup_keys_seeded {other : TableKind} (h : (tables.table other).keys.Nodup) :
    ((tables.seeded kind path).table other).keys.Nodup := by
  rw [seeded]
  split
  · exact h
  · rw [table_modifyTable]
    split
    · exact OrderedMap.nodup_keys_set h ..
    · exact h

/-- A path that is seeded keeps its chain, if it has one, and else inherits one. -/
theorem get?_seeded (other : TableKind) : ((tables.seeded kind path).table other).get? key =
    if other = kind ∧ key = path then
      some (((tables.table kind).get? path).getD (tables.inherited path))
    else (tables.table other).get? key := by
  unfold seeded OrderedMap.contains
  cases hget : (tables.table kind).get? path with
  | some chain =>
      simp only [Option.isSome_some, if_true, Option.getD_some]
      split
      · next h => rw [h.1, h.2, hget]
      · rfl
  | none =>
      simp only [Option.isSome_none, Bool.false_eq_true, if_false, Option.getD_none,
        table_modifyTable]
      by_cases hkind : other = kind
      · simp [hkind, OrderedMap.get?_set]
      · simp [hkind]

theorem middleware_seeded_routes : (tables.seeded .routes path).middleware = tables.middleware := by
  rw [seeded]
  split <;> rfl

/-- What is listed stays as it is, however often it is seeded. -/
theorem inherited_eq_nil (h : ∀ key ∈ tables.middleware.keys, key.covers path = false) :
    tables.inherited path = [] := by
  rw [inherited, RouteTable.closest_eq_none_iff.2 h, Option.getD_none]

/-- Where nothing covers a path, it is seeded with no handlers, and inherits none of itself. -/
theorem inherited_seeded (hnodup : tables.middleware.keys.Nodup)
    (h : ∀ key ∈ tables.middleware.keys, key.covers path = false) :
    (tables.seeded kind path).inherited path = [] := by
  cases hclosest : (tables.seeded kind path).middleware.closest path with
  | none => rw [inherited, hclosest, Option.getD_none]
  | some chain =>
      obtain ⟨key, hentry, hcovers, -⟩ := RouteTable.exists_key_of_closest hclosest
      have hnodup' : ((tables.seeded kind path).table .middleware).keys.Nodup :=
        nodup_keys_seeded hnodup
      have hget : ((tables.seeded kind path).table .middleware).get? key = some chain :=
        (OrderedMap.mem_entries_iff hnodup').1 hentry
      rw [inherited, hclosest, Option.getD_some]
      rw [get?_seeded] at hget
      split at hget
      · next hself =>
          -- the path covers itself, so it was not listed, and has the chain that it inherited
          have hnone : tables.middleware.get? path = none := by
            rw [OrderedMap.get?_eq_none_iff, ← hself.2]
            intro hmem
            rw [hself.2, h path (hself.2 ▸ hmem)] at hcovers
            cases hcovers
          rw [← hself.1] at hget
          rw [← Option.some.inj hget]
          show (tables.middleware.get? path).getD (tables.inherited path) = []
          rw [hnone, Option.getD_none, inherited_eq_nil h]
      · rw [h key (OrderedMap.mem_keys_of_get? hget)] at hcovers
        cases hcovers

/-! ### Routes -/

theorem middleware_routed (id : HandlerId) :
    (tables.routed id path).middleware = tables.middleware :=
  middleware_seeded_routes

theorem keys_routed (id : HandlerId) (other : TableKind) :
    ((tables.routed id path).table other).keys =
      ((tables.seeded .routes path).table other).keys := by
  rw [routed, table_modifyTable]
  split
  · rw [OrderedMap.keys_modify]
  · rfl

/-- A route gets its handler at its own path, behind what it had or has inherited. -/
theorem get?_routed (id : HandlerId) (other : TableKind) :
    ((tables.routed id path).table other).get? key =
      if other = .routes ∧ key = path then
        (((tables.seeded .routes path).table other).get? key).map (· ++ [id])
      else ((tables.seeded .routes path).table other).get? key := by
  rw [routed, table_modifyTable]
  by_cases hother : other = .routes
  · simp [hother, OrderedMap.get?_modify]
  · simp [hother]

theorem mem_keys_foldl_routed {id : HandlerId} {paths : List Path} {other : TableKind} :
    key ∈ ((paths.foldl (routed id) tables).table other).keys ↔
      key ∈ (tables.table other).keys ∨ other = .routes ∧ key ∈ paths := by
  induction paths generalizing tables with
  | nil => simp
  | cons path paths ih =>
      rw [List.foldl_cons, ih, keys_routed, mem_keys_seeded, List.mem_cons]
      tauto

theorem nodup_keys_foldl_routed {id : HandlerId} {paths : List Path} {other : TableKind}
    (h : (tables.table other).keys.Nodup) :
    ((paths.foldl (routed id) tables).table other).keys.Nodup := by
  induction paths generalizing tables with
  | nil => exact h
  | cons path paths ih =>
      rw [List.foldl_cons]
      apply ih
      rw [keys_routed]
      exact nodup_keys_seeded h

/-! ### Registrations -/

theorem mem_keys_registered {wildcard : Option Wildcard} {paths : List Path} {id : HandlerId} :
    key ∈ ((tables.registered path wildcard paths id).table kind).keys ↔
      key ∈ (tables.table kind).keys ∨
        if wildcard.isSome then kind = .middleware ∧ key = path
        else kind = .routes ∧ key ∈ paths := by
  cases wildcard with
  | some wildcard => simp [registered, mem_keys_seeded]
  | none => simp [registered, mem_keys_foldl_routed]

theorem nodup_keys_registered {wildcard : Option Wildcard} {paths : List Path} {id : HandlerId}
    (h : (tables.table kind).keys.Nodup) :
    ((tables.registered path wildcard paths id).table kind).keys.Nodup := by
  cases wildcard with
  | some wildcard =>
      rw [registered, keys_attach]
      exact nodup_keys_seeded h
  | none => exact nodup_keys_foldl_routed h

end MethodTables

end PathRouter
