import PathRouter.Proofs.Builder.Listing

/-!
Tables without an expander. They list just the paths that have been registered, each in the table of
its kind; and a registration adds its handler behind the chains that its path applies to, once the
path itself has been seeded.
-/

namespace PathRouter

variable [SizeRule]

/-- A registered path applies to a key that it is, and to a key that it covers as a wildcard. -/
def Path.appliesTo (path key : Path) : Bool := path == key || (path.isWildcard && path.covers key)

theorem Path.appliesTo_self (path : Path) : path.appliesTo path = true := by
  simp [appliesTo]

theorem Path.appliesTo_wildcard {path : Path} (hwild : path.isWildcard = true)
    {wildcard : Wildcard} (hok : Wildcard.ofPath path = .ok wildcard) (key : Path) :
    path.appliesTo key = wildcard.covers key := by
  rw [appliesTo, hwild, Bool.true_and, covers_eq hok]
  by_cases hkey : path = key
  · rw [← hkey, (covers_ofPath hok).2 (covers_self path), Bool.or_true]
  · simp [hkey]

namespace MethodTables

structure Listed (tables : MethodTables) (adds : List (Path × HandlerId)) : Prop where
  nodup : ∀ kind, (tables.table kind).keys.Nodup
  keys : ∀ kind key, key ∈ (tables.table kind).keys ↔ key.kind = kind ∧ key ∈ adds.map Prod.fst

omit [SizeRule] in
theorem listed_empty : ({} : MethodTables).Listed [] := by
  constructor
  case nodup =>
    intro kind
    cases kind <;> exact List.nodup_nil
  case keys =>
    intro kind key
    cases kind <;> simp [table, OrderedMap.keys]

variable {tables : MethodTables} {adds : List (Path × HandlerId)} {path key : Path}
  {wildcard : Option Wildcard} {id : HandlerId} {kind : TableKind} {chain : Chain}

omit [SizeRule] in
theorem Listed.isWildcard (h : tables.Listed adds) (hkey : key ∈ tables.middleware.keys) :
    key.isWildcard = true := by
  have hkind := ((h.keys .middleware key).1 hkey).1
  rw [Path.kind] at hkind
  split at hkind
  · next hwild => exact hwild
  · cases hkind

omit [SizeRule] in
theorem Listed.mem_middleware (h : tables.Listed adds) {add : Path × HandlerId} (hadd : add ∈ adds)
    (hwild : add.1.isWildcard = true) : add.1 ∈ tables.middleware.keys :=
  (h.keys .middleware add.1).2 ⟨if_pos hwild, List.mem_map_of_mem hadd⟩

theorem Listed.registered (h : tables.Listed adds) (hwildcard : path.wildcard? = .ok wildcard)
    (id : HandlerId) :
    (tables.registered path wildcard [path] id).Listed (adds ++ [(path, id)]) := by
  constructor
  case nodup =>
    intro kind
    exact nodup_keys_registered (h.nodup kind)
  case keys =>
    intro kind key
    have hbrought : (if wildcard.isSome then kind = .middleware ∧ key = path
        else kind = .routes ∧ key ∈ [path]) ↔ kind = path.kind ∧ key = path := by
      rw [Path.kind_eq hwildcard, List.mem_singleton]
      split <;> rfl
    rw [mem_keys_registered, h.keys kind key, hbrought, List.map_append, List.mem_append,
      List.map_singleton, List.mem_singleton]
    constructor
    · rintro (⟨hkind, hmem⟩ | ⟨hkind, rfl⟩)
      · exact ⟨hkind, Or.inl hmem⟩
      · exact ⟨hkind.symm, Or.inr rfl⟩
    · rintro ⟨hkind, hmem | rfl⟩
      · exact Or.inl ⟨hkind, hmem⟩
      · exact Or.inr ⟨hkind.symm, rfl⟩

/-- A path that is seeded keeps its chain, and a new one inherits that of the closest wildcard. -/
theorem Listed.get?_seeded_kind (h : tables.Listed adds)
    (hget : ((tables.seeded path.kind path).table kind).get? key = some chain) :
    (tables.table kind).get? key = some chain ∨
      key = path ∧ key ∉ adds.map Prod.fst ∧ chain = tables.inherited path := by
  rw [get?_seeded] at hget
  split at hget
  · next hself =>
      cases hold : (tables.table path.kind).get? path with
      | some old =>
          rw [hold, Option.getD_some] at hget
          rw [hself.1, hself.2, hold]
          exact Or.inl hget
      | none =>
          rw [hold, Option.getD_none] at hget
          refine Or.inr ⟨hself.2, fun hmem => ?_, (Option.some.inj hget).symm⟩
          rw [hself.2] at hmem
          exact OrderedMap.get?_eq_none_iff.1 hold ((h.keys _ _).2 ⟨rfl, hmem⟩)
  · exact Or.inl hget

/-- A registration adds its handler to the chains of all keys that its path applies to. -/
theorem Listed.get?_registered (h : tables.Listed adds) (hwildcard : path.wildcard? = .ok wildcard)
    (hget : ((tables.registered path wildcard [path] id).table kind).get? key = some chain) :
    ∃ seed, ((tables.seeded path.kind path).table kind).get? key = some seed ∧
      chain = if path.appliesTo key then seed ++ [id] else seed := by
  cases wildcard with
  | some wildcard =>
      have hkind : path.kind = .middleware := Path.kind_eq hwildcard
      obtain ⟨hwild, hok⟩ := Path.wildcard?_eq_some hwildcard
      rw [MethodTables.registered, get?_attach, Option.map_eq_some_iff] at hget
      obtain ⟨seed, hseed, rfl⟩ := hget
      exact ⟨seed, hkind ▸ hseed, by rw [Path.appliesTo_wildcard hwild hok]⟩
  | none =>
      have hkind : path.kind = .routes := Path.kind_eq hwildcard
      have hroute : path.isWildcard = false := Path.wildcard?_eq_none hwildcard
      rw [MethodTables.registered, List.foldl_cons, List.foldl_nil, get?_routed] at hget
      split at hget
      · next hself =>
          obtain ⟨seed, hseed, rfl⟩ := Option.map_eq_some_iff.1 hget
          exact ⟨seed, hkind ▸ hseed, by rw [hself.2, if_pos path.appliesTo_self]⟩
      · next hother =>
          have hnot : path.appliesTo key = false := by
            rw [Path.appliesTo, hroute, Bool.false_and, Bool.or_false, beq_eq_false_iff_ne]
            rintro rfl
            -- a key of this table that is the path would belong to the routes
            rcases mem_keys_seeded.1 (OrderedMap.mem_keys_of_get? hget) with hmem | hself
            · exact hother ⟨((h.keys kind path).1 hmem).1.symm.trans hkind, rfl⟩
            · exact hother hself
          exact ⟨chain, hkind ▸ hget, by rw [hnot, if_neg Bool.false_ne_true]⟩

end MethodTables

end PathRouter
