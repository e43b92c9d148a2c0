import PathRouter.OrderedMap.Columns
import PathRouter.Proofs.OrderedMap

/-!
Columns as ordered maps. As long as keys, values and index fit together, the keys beside the values
are an ordered map in which a lookup finds what the index leads to. Every operation keeps them
fitting together and does to the columns what it does to the map; to set a value never fails.
-/

namespace PathRouter

namespace OrderedMap

variable {κ α : Type} [DecidableEq κ] {m : OrderedMap κ α} {key : κ}

theorem set_of_mem (hnodup : m.keys.Nodup) (hmem : key ∈ m.keys) (value : α) :
    m.set key value = m.modify key fun _ => value := by
  obtain ⟨entries⟩ := m
  simp only [keys, set, modify, update, mk.injEq] at hnodup hmem ⊢
  induction entries with
  | nil => cases hmem
  | cons entry entries ih =>
      rw [List.map_cons, List.nodup_cons] at hnodup
      rw [setEntry, List.map_cons]
      by_cases hkey : entry.1 = key
      · -- no other entry has the key
        have hothers : entries.map (fun other =>
            (other.1, if other.1 = key then value else other.2)) = entries := by
          refine (List.map_congr_left fun other hother => ?_).trans (List.map_id entries)
          have hne : other.1 ≠ key := fun h =>
            hnodup.1 (hkey ▸ h ▸ List.mem_map_of_mem hother)
          rw [if_neg hne, id]
        rw [if_pos hkey, if_pos hkey, hothers, hkey]
      · have hmem' := (List.mem_cons.1 hmem).resolve_left fun h => hkey h.symm
        rw [if_neg hkey, if_neg hkey, ih hnodup.2 hmem']

theorem entries_set_of_notMem (hmem : key ∉ m.keys) (value : α) :
    (m.set key value).entries = m.entries ++ [(key, value)] := by
  obtain ⟨entries⟩ := m
  simp only [keys, set] at hmem ⊢
  induction entries with
  | nil => rfl
  | cons entry entries ih =>
      rw [List.map_cons, List.mem_cons, not_or] at hmem
      rw [setEntry, if_neg fun h => hmem.1 h.symm, ih hmem.2, List.cons_append]

end OrderedMap

namespace Columns

variable {κ α : Type} [DecidableEq κ] {table : Columns κ α} {key other : κ} {i j : Nat}

/-- Each key has a value, no key is listed twice, and the index leads from the keys to their places
and from nothing else. -/
structure Aligned (table : Columns κ α) : Prop where
  sizes : table.keys.size = table.values.size
  nodup : table.keys.toList.Nodup
  index : ∀ key i, table.index.get? key = some i ↔ table.keys[i]? = some key

def toMap (table : Columns κ α) : OrderedMap κ α := ⟨table.entries⟩

theorem aligned_empty : Aligned ({} : Columns κ α) := by
  refine ⟨rfl, List.nodup_nil, fun key i => ?_⟩
  simp [OrderedMap.get?]

theorem get?_eq_some_iff {value : α} : table.get? key = some value ↔
    ∃ i, table.index.get? key = some i ∧ table.values[i]? = some value :=
  Option.bind_eq_some_iff

omit [DecidableEq κ] in
theorem mem_entries_iff {value : α} : (key, value) ∈ table.entries ↔
    ∃ i : Nat, table.keys[i]? = some key ∧ table.values[i]? = some value := by
  simp only [entries, List.mem_iff_getElem?, List.getElem?_zip_eq_some, Array.getElem?_toList]

namespace Aligned

/-! ### The map of aligned columns -/

theorem keys_toMap (h : table.Aligned) : table.toMap.keys = table.keys.toList :=
  List.map_fst_zip (Nat.le_of_eq h.sizes)

theorem nodup_toMap (h : table.Aligned) : table.toMap.keys.Nodup := h.keys_toMap ▸ h.nodup

theorem get?_toMap (h : table.Aligned) (key : κ) : table.toMap.get? key = table.get? key := by
  ext value
  rw [← OrderedMap.mem_entries_iff h.nodup_toMap, get?_eq_some_iff]
  simp only [h.index]
  exact mem_entries_iff

theorem size_toMap (h : table.Aligned) : table.toMap.size = table.size := by
  have hlength := congrArg List.length h.keys_toMap
  rwa [OrderedMap.keys, List.length_map] at hlength

theorem isEmpty_toMap (h : table.Aligned) : table.toMap.isEmpty = table.isEmpty := by
  have hempty := congrArg List.isEmpty h.keys_toMap
  rwa [OrderedMap.keys, List.isEmpty_map, Array.isEmpty_toList] at hempty

/-! ### What the index leads to -/

theorem lt_size (h : table.Aligned) (hi : table.index.get? key = some i) :
    i < table.values.size := by
  rw [← h.sizes]
  exact (Array.getElem?_eq_some_iff.1 ((h.index key i).1 hi)).1

/-- The index leads to a place from the key there only. -/
theorem index_iff (h : table.Aligned) (hi : table.index.get? key = some i)
    (hj : table.keys[j]? = some other) : i = j ↔ other = key := by
  rw [← h.index] at hj
  constructor
  · rintro rfl
    rw [h.index] at hi hj
    exact Option.some.inj (hj.symm.trans hi)
  · rintro rfl
    exact Option.some.inj (hi.symm.trans hj)

theorem index_eq_none_iff (h : table.Aligned) :
    table.index.get? key = none ↔ key ∉ table.keys.toList := by
  rw [List.mem_iff_getElem?, Option.eq_none_iff_forall_ne_some, not_exists]
  simp only [ne_eq, h.index, Array.getElem?_toList]

/-! ### Operations -/

/-- To change values in place, by their keys, is an update of the map. -/
theorem in_place (h : table.Aligned) {values : Array α} (f : κ → α → α)
    (hsize : values.size = table.values.size)
    (hvalues : ∀ {i : Nat} {key}, table.keys[i]? = some key →
      values[i]? = (table.values[i]?).map (f key)) :
    Aligned { table with values } ∧ toMap { table with values } = table.toMap.update f := by
  refine ⟨⟨h.sizes.trans hsize.symm, h.nodup, h.index⟩, ?_⟩
  rw [toMap, toMap, OrderedMap.update, OrderedMap.mk.injEq]
  apply List.ext_getElem?
  intro i
  simp only [entries, List.zip_eq_zipWith, List.getElem?_map, List.getElem?_zipWith',
    Array.getElem?_toList]
  cases hkey : table.keys[i]? with
  | none => rfl
  | some key =>
      rw [hvalues hkey]
      cases table.values[i]? <;> rfl

/-- To change the value at the place of a key is to change the value of the key. -/
theorem at_place (h : table.Aligned) (hi : table.index.get? key = some i) (f : α → α)
    {values : Array α} (hsize : values.size = table.values.size)
    (hat : values[i]? = (table.values[i]?).map f)
    (hothers : ∀ j : Nat, i ≠ j → values[j]? = table.values[j]?) :
    Aligned { table with values } ∧
      toMap { table with values } = table.toMap.modify key f := by
  refine h.in_place _ hsize fun {j other} hother => ?_
  by_cases hkey : other = key
  · rw [← (h.index_iff hi hother).2 hkey, hat]
    simp only [if_pos hkey]
  · rw [hothers j ((h.index_iff hi hother).not.2 hkey)]
    simp [hkey]

theorem update (h : table.Aligned) (f : κ → α → α) :
    (table.update f).Aligned ∧ (table.update f).toMap = table.toMap.update f := by
  refine h.in_place f Array.size_mapIdx fun {i key} hkey => ?_
  rw [Array.getElem?_mapIdx, hkey]

theorem modify (h : table.Aligned) (key : κ) (f : α → α) :
    (table.modify key f).Aligned ∧ (table.modify key f).toMap = table.toMap.modify key f := by
  rw [Columns.modify]
  cases hi : table.index.get? key with
  | none =>
      refine h.in_place _ rfl fun {j other} hother => ?_
      have hne : other ≠ key := by
        rintro rfl
        rw [(h.index other j).2 hother] at hi
        cases hi
      simp [hne]
  | some i =>
      apply h.at_place hi f Array.size_modify
      · rw [Array.getElem?_modify, if_pos rfl]
      · intro j hj
        rw [Array.getElem?_modify, if_neg hj]

theorem append (h : table.Aligned) (hkey : key ∉ table.keys.toList) (value : α) :
    let after : Columns κ α := {
      keys := table.keys.push key
      values := table.values.push value
      index := table.index.set key table.keys.size }
    after.Aligned ∧ after.toMap = table.toMap.set key value := by
  intro after
  refine ⟨⟨?_, ?_, fun other i => ?_⟩, ?_⟩
  · simp [after, h.sizes]
  · rw [Array.toList_push, ← List.concat_eq_append]
    exact (List.nodup_concat ..).2 ⟨hkey, h.nodup⟩
  · rw [OrderedMap.get?_set, Array.getElem?_push]
    by_cases hother : other = key
    · -- the new key is at no other place
      have hnowhere : table.keys[i]? ≠ some key := fun h =>
        hkey (Array.mem_toList_iff.2 (Array.mem_of_getElem? h))
      by_cases hi : i = table.keys.size
      · simp [hother, hi]
      · simp [hother, hi, hnowhere, Ne.symm hi]
    · by_cases hi : i = table.keys.size
      · simp [hother, hi, h.index, Ne.symm hother]
      · simp [hother, hi, h.index]
  · rw [toMap, OrderedMap.mk.injEq, OrderedMap.entries_set_of_notMem (h.keys_toMap ▸ hkey)]
    simp only [after, toMap, entries, Array.toList_push]
    exact List.zip_append h.sizes

/-- A value is written at the place of its key: the old one, or one behind all others. -/
theorem put (h : table.Aligned) (key : κ) (value : α) :
    ∃ i after, table.put key value = some (i, after) ∧ after.values[i]? = some value ∧
      after.Aligned ∧ after.toMap = table.toMap.set key value := by
  rw [Columns.put]
  cases hi : table.index.get? key with
  | some i =>
      have hlt := h.lt_size hi
      refine ⟨i, _, dif_pos hlt, Array.getElem?_set_self hlt, ?_⟩
      have hmem : key ∈ table.toMap.keys := by
        rw [h.keys_toMap]
        exact List.mem_iff_getElem?.2 ⟨i, (Array.getElem?_toList ..).trans ((h.index key i).1 hi)⟩
      rw [OrderedMap.set_of_mem h.nodup_toMap hmem]
      apply h.at_place hi _ (Array.size_set hlt)
      · rw [Array.getElem?_set_self hlt, getElem?_pos table.values i hlt, Option.map_some]
      · exact fun j hj => Array.getElem?_set_ne hlt hj
  | none =>
      refine ⟨table.keys.size, _, rfl, ?_, h.append (h.index_eq_none_iff.1 hi) value⟩
      rw [h.sizes]
      exact Array.getElem?_push_size

/-- To set a value never fails, and gives it back. -/
theorem set (h : table.Aligned) (key : κ) (value : α) :
    ∃ after, table.set key value = some (value, after) ∧
      after.Aligned ∧ after.toMap = table.toMap.set key value := by
  obtain ⟨i, after, hput, hstored, haligned⟩ := h.put key value
  refine ⟨after, ?_, haligned⟩
  rw [Columns.set, hput]
  show (after.values[i]?).bind _ = _
  rw [hstored]
  rfl

end Aligned

end Columns

end PathRouter
