import Mathlib.Data.List.Induction
import Mathlib.Data.List.Nodup
import PathRouter.OrderedMap

/-!
Listings of ordered maps. A listing is as good as the map when no key is listed twice, and a map
that is set from a list of pairs has the keys of the list.
-/

namespace PathRouter

namespace OrderedMap

universe u v

variable {κ : Type u} {α : Type v} [DecidableEq κ]

theorem get?_eq_none_iff {m : OrderedMap κ α} {key : κ} : m.get? key = none ↔ key ∉ m.keys := by
  rw [← contains_iff_mem_keys, contains]
  cases m.get? key <;> simp

theorem mem_keys_of_get? {m : OrderedMap κ α} {key : κ} {value : α} (h : m.get? key = some value) :
    key ∈ m.keys := by
  rw [← contains_iff_mem_keys, contains, h, Option.isSome_some]

theorem exists_get?_of_mem_keys {m : OrderedMap κ α} {key : κ} (h : key ∈ m.keys) :
    ∃ value, m.get? key = some value := by
  rw [← contains_iff_mem_keys] at h
  exact Option.isSome_iff_exists.1 h

theorem mem_entries_iff {m : OrderedMap κ α} (h : m.keys.Nodup) {key : κ} {value : α} :
    (key, value) ∈ m.entries ↔ m.get? key = some value := by
  obtain ⟨entries⟩ := m
  simp only [keys] at h
  simp only [get?]
  induction entries with
  | nil => simp
  | cons entry rest ih =>
      obtain ⟨k, old⟩ := entry
      rw [List.map_cons, List.nodup_cons] at h
      rw [List.mem_cons, lookup_cons_eq_ite, ih h.2]
      by_cases hk : key = k
      · subst hk
        have hnone : rest.lookup key = none :=
          (get?_eq_none_iff (m := ⟨rest⟩)).2 h.1
        simp [hnone, eq_comm]
      · simp [hk]

/-! ### Updates -/

omit [DecidableEq κ] in
theorem update_update (f g : κ → α → α) (m : OrderedMap κ α) :
    (m.update f).update g = m.update fun key value => g key (f key value) := by
  simp [update, Function.comp_def]

/-- Only the values that the keys have matter to an update. -/
theorem update_congr {m : OrderedMap κ α} (h : m.keys.Nodup) {f g : κ → α → α}
    (hfg : ∀ key value, m.get? key = some value → f key value = g key value) :
    m.update f = m.update g := by
  rw [update]
  congr 1
  apply List.map_congr_left
  intro entry hentry
  rw [hfg _ _ ((mem_entries_iff h).1 hentry)]

theorem update_set (f : κ → α → α) (m : OrderedMap κ α) (key : κ) (value : α) :
    (m.set key value).update f = (m.update f).set key (f key value) := by
  obtain ⟨entries⟩ := m
  simp only [update, set, mk.injEq]
  induction entries with
  | nil => rfl
  | cons entry rest ih =>
      by_cases hkey : entry.1 = key
      · simp [setEntry, hkey]
      · simp [setEntry, hkey, ih]

omit [DecidableEq κ] in
theorem update_self (m : OrderedMap κ α) : m.update (fun _ value => value) = m := by
  simp [update]

/-! ### Maps set from a list -/

theorem ofList_append_singleton (pairs : List (κ × α)) (pair : κ × α) :
    ofList (pairs ++ [pair]) = (ofList pairs).set pair.1 pair.2 := by
  rw [ofList, List.foldl_append]
  rfl

theorem mem_keys_ofList {pairs : List (κ × α)} {key : κ} :
    key ∈ (ofList pairs).keys ↔ key ∈ pairs.map Prod.fst := by
  induction pairs using List.reverseRecOn with
  | nil => simp [ofList, keys]
  | append_singleton pairs pair ih =>
      rw [ofList_append_singleton, keys_set, List.map_append, List.mem_append, ← ih]
      split
      · next hmem =>
          simp only [List.map_cons, List.map_nil, List.mem_singleton]
          exact ⟨Or.inl, fun h => h.elim id fun e => e ▸ hmem⟩
      · simp

theorem nodup_keys_ofList (pairs : List (κ × α)) : (ofList pairs).keys.Nodup := by
  induction pairs using List.reverseRecOn with
  | nil => exact List.nodup_nil
  | append_singleton pairs pair ih =>
      rw [ofList_append_singleton]
      exact nodup_keys_set ih ..

/-- A value that is found is that of a pair. -/
theorem mem_of_get?_ofList {pairs : List (κ × α)} {key : κ} {value : α}
    (h : (ofList pairs).get? key = some value) : (key, value) ∈ pairs := by
  induction pairs using List.reverseRecOn with
  | nil => cases h
  | append_singleton pairs pair ih =>
      rw [ofList_append_singleton, get?_set] at h
      split at h
      · next hkey =>
          rw [hkey, ← Option.some.inj h]
          exact List.mem_append_right _ List.mem_cons_self
      · exact List.mem_append_left _ (ih h)

/-- What holds of all pairs, and of a default for the keys without any, holds of a lookup with that
default. -/
theorem getD_ofList {pairs : List (κ × α)} {P : κ → α → Prop} (h : ∀ pair ∈ pairs, P pair.1 pair.2)
    {key : κ} {default : α} (hdefault : key ∉ pairs.map Prod.fst → P key default) :
    P key (((ofList pairs).get? key).getD default) := by
  cases hget : (ofList pairs).get? key with
  | some value => exact h _ (mem_of_get?_ofList hget)
  | none =>
      rw [get?_eq_none_iff, mem_keys_ofList] at hget
      exact hdefault hget

theorem get?_ofList {pairs : List (κ × α)} {key : κ} {value : α} (hmem : (key, value) ∈ pairs)
    (honly : ∀ pair ∈ pairs, pair.1 = key → pair.2 = value) :
    (ofList pairs).get? key = some value := by
  induction pairs using List.reverseRecOn with
  | nil => simp at hmem
  | append_singleton pairs pair ih =>
      rw [ofList_append_singleton, get?_set]
      split
      · next hkey =>
          rw [honly pair (List.mem_append_right _ (List.mem_singleton.2 rfl)) hkey.symm]
      · next hkey =>
          refine ih ?_ fun other h => honly other (List.mem_append_left _ h)
          rcases List.mem_append.1 hmem with hmem | hmem
          · exact hmem
          · exact absurd (congrArg Prod.fst (List.mem_singleton.1 hmem)) hkey

end OrderedMap

end PathRouter
