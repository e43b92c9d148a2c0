import PathRouter.Proofs.OrderedMap
import PathRouter.RouteTable

/-!
The tables that come about by changes of an empty one. Whatever is done to the chains in between, a
table lists the paths that were set, each of them once, and one before another if it was set first.
-/

namespace PathRouter

namespace RouteTable

inductive Change
  | set (path : Path) (chain : Chain)
  /-- Changes the chain of one path, if there is one. -/
  | modify (path : Path) (f : Chain → Chain)
  /-- Changes the chains of all paths. -/
  | update (f : Path → Chain → Chain)

def change (table : RouteTable) : Change → RouteTable
  | .set path chain => table.set path chain
  | .modify path f => table.modify path f
  | .update f => table.update f

def ofChanges (changes : List Change) : RouteTable := changes.foldl change {}

def Change.path? : Change → Option Path
  | .set path _ => some path
  | .modify _ _ => none
  | .update _ => none

/-- The paths that are set, as often as they are, in the order of the changes. -/
def setPaths (changes : List Change) : List Path := changes.filterMap Change.path?

theorem ofChanges_concat (changes : List Change) (new : Change) :
    ofChanges (changes ++ [new]) = (ofChanges changes).change new := by
  rw [ofChanges, List.foldl_append]
  rfl

theorem setPaths_concat (changes : List Change) (new : Change) :
    setPaths (changes ++ [new]) = setPaths changes ++ new.path?.toList := by
  rw [setPaths, List.filterMap_append]
  cases new <;> rfl

theorem keys_change (table : RouteTable) (new : Change) :
    (table.change new).keys = table.keys ∧ (∀ path ∈ new.path?, path ∈ table.keys) ∨
      ∃ path ∈ new.path?, path ∉ table.keys ∧ (table.change new).keys = table.keys ++ [path] := by
  cases new with
  | set path chain =>
      rw [change, OrderedMap.keys_set]
      by_cases h : path ∈ table.keys
      · refine Or.inl ⟨if_pos h, fun other hother => ?_⟩
        rwa [← Option.some.inj hother]
      · exact Or.inr ⟨path, rfl, h, if_neg h⟩
  | modify path f => exact Or.inl ⟨OrderedMap.keys_modify .., fun _ hother => by cases hother⟩
  | update f => exact Or.inl ⟨OrderedMap.keys_update .., fun _ hother => by cases hother⟩

theorem mem_keys_ofChanges {changes : List Change} {path : Path} :
    path ∈ (ofChanges changes).keys ↔ path ∈ setPaths changes := by
  induction changes using List.reverseRecOn with
  | nil => exact Iff.rfl
  | append_singleton changes new ih =>
      rw [ofChanges_concat, setPaths_concat, List.mem_append, Option.mem_toList, ← ih]
      rcases keys_change (ofChanges changes) new with ⟨hkeys, hlisted⟩ | ⟨added, hadded, -, hkeys⟩
      · rw [hkeys]
        exact ⟨Or.inl, fun h => h.elim id (hlisted path)⟩
      · rw [hkeys, List.mem_append, List.mem_singleton, Option.mem_def.1 hadded,
          Option.some.injEq, eq_comm (a := path)]

/-- Of two listed paths, the one listed before the other was set first. -/
theorem pairwise_keys_ofChanges (changes : List Change) : (ofChanges changes).keys.Pairwise
    fun path other => (setPaths changes).idxOf path < (setPaths changes).idxOf other := by
  induction changes using List.reverseRecOn with
  | nil => exact List.Pairwise.nil
  | append_singleton changes new ih =>
      -- the first place of a path that was set before is not changed by what is set later
      have hold {path : Path} (h : path ∈ (ofChanges changes).keys) :
          (setPaths (changes ++ [new])).idxOf path = (setPaths changes).idxOf path := by
        rw [setPaths_concat]
        exact List.idxOf_append_of_mem (mem_keys_ofChanges.1 h)
      have hkept : (ofChanges changes).keys.Pairwise fun path other =>
          (setPaths (changes ++ [new])).idxOf path < (setPaths (changes ++ [new])).idxOf other :=
        ih.imp_of_mem fun hpath hother hlt => by rwa [hold hpath, hold hother]
      rw [ofChanges_concat]
      rcases keys_change (ofChanges changes) new with ⟨hkeys, -⟩ | ⟨added, -, hadded, hkeys⟩
      · rwa [hkeys]
      · rw [hkeys, List.pairwise_append]
        refine ⟨hkept, List.pairwise_singleton .., fun path hpath other hother => ?_⟩
        rw [hold hpath, List.mem_singleton.1 hother, setPaths_concat,
          List.idxOf_append_of_notMem fun h => hadded (mem_keys_ofChanges.2 h)]
        exact Nat.lt_add_right _ (List.idxOf_lt_length_of_mem (mem_keys_ofChanges.1 hpath))

theorem nodup_keys_ofChanges (changes : List Change) : (ofChanges changes).keys.Nodup := by
  refine (pairwise_keys_ofChanges changes).imp fun hlt heq => ?_
  rw [heq] at hlt
  exact Nat.lt_irrefl _ hlt

end RouteTable

end PathRouter
