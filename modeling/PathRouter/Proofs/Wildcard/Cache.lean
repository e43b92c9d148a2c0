import Mathlib.Data.List.MinMax
import PathRouter.Proofs.OrderedMap
import PathRouter.Proofs.Run
import PathRouter.Proofs.Wildcard.Coverage
import PathRouter.Wildcard.Cache

/-!
The cache of wildcards makes no difference to what is found. A sound cache holds what compiling
gives, so the search for the closest middleware is a search through the paths alone; and as long as
all middleware paths are cached, it can not fail.
-/

namespace PathRouter

variable [SizeRule]

/-- The chain of the longest middleware path that covers the given path, found without a cache. -/
def RouteTable.closest (middleware : RouteTable) (path : Path) : Option Chain :=
  ((WildcardCache.longestFirst middleware).find? fun entry => entry.1.covers path).map Prod.snd

namespace WildcardCache

def Sound (cache : WildcardCache) : Prop :=
  ∀ path wildcard, cache.get? path = some wildcard → Wildcard.ofPath path = .ok wildcard

theorem sound_empty : Sound {} := by
  intro path wildcard h
  cases h

variable {cache : WildcardCache} {path : Path}

theorem Sound.set (h : cache.Sound) {new : Wildcard} (hnew : Wildcard.ofPath path = .ok new) :
    Sound (cache.set path new) := by
  intro other wildcard hget
  rw [OrderedMap.get?_set] at hget
  split at hget
  · next hother =>
      rw [hother, hnew, Option.some.inj hget]
  · exact h other wildcard hget

theorem Sound.exists_ok (h : cache.Sound) (hknown : path ∈ cache.keys) :
    ∃ known, Wildcard.ofPath path = .ok known ∧ (wildcard path).run cache = .ok known cache := by
  obtain ⟨known, hget⟩ := OrderedMap.exists_get?_of_mem_keys hknown
  refine ⟨known, h path known hget, ?_⟩
  rw [wildcard, run_bind_of_ok (EStateM.run_get cache)]
  simp only [hget]
  rfl

theorem run_wildcard_of_new (hnew : path ∉ cache.keys) :
    (wildcard path).run cache = match Wildcard.ofPath path with
      | .ok new => .ok new (cache.set path new)
      | .error e => .error e cache := by
  rw [wildcard, run_bind_of_ok (EStateM.run_get cache)]
  simp only [OrderedMap.get?_eq_none_iff.2 hnew]
  cases Wildcard.ofPath path <;> rfl

/-- Compiling through a sound cache gives what compiling gives, and leaves a sound cache. -/
theorem Sound.run_wildcard (h : cache.Sound) {new : Wildcard}
    (hnew : Wildcard.ofPath path = .ok new) :
    ∃ cache', (wildcard path).run cache = .ok new cache' ∧ cache'.Sound ∧ path ∈ cache'.keys ∧
      ∀ other ∈ cache.keys, other ∈ cache'.keys := by
  by_cases hknown : path ∈ cache.keys
  · obtain ⟨known, hok, hrun⟩ := h.exists_ok hknown
    rw [hnew] at hok
    cases hok
    exact ⟨cache, hrun, h, hknown, fun _ hother => hother⟩
  · rw [run_wildcard_of_new hknown, hnew]
    refine ⟨_, rfl, h.set hnew, ?_, ?_⟩
    · rw [OrderedMap.keys_set, if_neg hknown]
      exact List.mem_append_right _ List.mem_cons_self
    · intro other hother
      rw [OrderedMap.keys_set, if_neg hknown]
      exact List.mem_append_left _ hother

/-- A path that does not compile fails, and leaves the cache as it was. -/
theorem Sound.run_wildcard_error (h : cache.Sound) {e : RouterError}
    (herror : Wildcard.ofPath path = .error e) : (wildcard path).run cache = .error e cache := by
  by_cases hknown : path ∈ cache.keys
  · obtain ⟨known, hok, -⟩ := h.exists_ok hknown
    rw [herror] at hok
    cases hok
  · rw [run_wildcard_of_new hknown, herror]

/-- Where all keys are cached, the search goes by the paths alone. -/
theorem Sound.run_firstCovering (h : cache.Sound) {entries : List (Path × Chain)}
    (hknown : ∀ entry ∈ entries, entry.1 ∈ cache.keys) :
    (firstCovering path entries).run cache =
      .ok ((entries.find? fun entry => entry.1.covers path).map Prod.snd) cache := by
  induction entries with
  | nil => rfl
  | cons entry rest ih =>
      obtain ⟨key, chain⟩ := entry
      obtain ⟨compiled, hok, hrun⟩ := h.exists_ok (hknown _ List.mem_cons_self)
      have hrest := ih fun entry hentry => hknown entry (List.mem_cons_of_mem _ hentry)
      rw [firstCovering, EStateM.run_bind, hrun]
      simp only [List.find?_cons, Path.covers_eq hok]
      cases compiled.covers path with
      | true => rfl
      | false => exact hrest

omit [SizeRule] in
theorem mem_longestFirst {table : RouteTable} {entry : Path × Chain} :
    entry ∈ longestFirst table ↔ entry ∈ table.entries :=
  (List.mergeSort_perm ..).mem_iff

theorem Sound.run_findMiddleware (h : cache.Sound) {middleware : RouteTable}
    (hknown : ∀ key ∈ middleware.keys, key ∈ cache.keys) :
    (findMiddleware middleware path).run cache = .ok (middleware.closest path) cache := by
  apply h.run_firstCovering
  intro entry hentry
  exact hknown _ (List.mem_map_of_mem (mem_longestFirst.1 hentry))

end WildcardCache

omit [SizeRule] in
/-- The first one, in descending order, of those that have a property is the greatest of them; of
several that are equally great, it is the first one listed. -/
theorem find?_mergeSort_eq_argmax {β : Type} (f : β → Nat) (p : β → Bool) (l : List β) :
    (l.mergeSort fun a b => decide (f b ≤ f a)).find? p = (l.filter p).argmax f := by
  have htrans (a b c : β) (hab : decide (f b ≤ f a) = true) (hbc : decide (f c ≤ f b) = true) :
      decide (f c ≤ f a) = true := by
    rw [decide_eq_true_eq] at hab hbc ⊢
    exact Nat.le_trans hbc hab
  have htotal (a b : β) : (decide (f b ≤ f a) || decide (f a ≤ f b)) = true := by
    rw [Bool.or_eq_true, decide_eq_true_eq, decide_eq_true_eq]
    exact Nat.le_total ..
  induction l with
  | nil => simp
  | cons a l ih =>
      -- sorting puts `a` behind the greater ones, and leaves the others as they are without it
      obtain ⟨front, back, hcons, hrest, hfront⟩ := List.mergeSort_cons htrans htotal a l
      rw [hcons, List.find?_append]
      rw [hrest, List.find?_append] at ih
      cases hp : p a with
      | false =>
          rw [List.find?_cons_of_neg (by simp [hp]), ih, List.filter_cons_of_neg (by simp [hp])]
      | true =>
          rw [List.find?_cons_of_pos hp, List.filter_cons_of_pos hp, List.argmax_cons, ← ih]
          cases hfind : front.find? p with
          | some b =>
              have hlt : f a < f b := by simpa using hfront b (List.mem_of_find?_eq_some hfind)
              simp [hlt]
          | none =>
              cases hback : back.find? p with
              | none => simp
              | some c =>
                  have hsorted := List.pairwise_mergeSort htrans htotal (a :: l)
                  rw [hcons, List.pairwise_append, List.pairwise_cons] at hsorted
                  have hle := hsorted.2.1.1 c (List.mem_of_find?_eq_some hback)
                  rw [decide_eq_true_eq] at hle
                  simp [Nat.not_lt.2 hle]

namespace Path

/-- The longest of the wildcards that cover a path; of several, the first one listed. -/
def closestAmong (wildcards : List Path) (path : Path) : Option Path :=
  (wildcards.filter (·.covers path)).argmax byteLength

variable {wildcards : List Path} {wildcard closest path : Path}

theorem mem_of_closestAmong (h : closestAmong wildcards path = some closest) :
    closest ∈ wildcards ∧ closest.covers path = true :=
  List.mem_filter.1 (List.argmax_mem h)

theorem exists_closestAmong (hmem : wildcard ∈ wildcards) (hcovers : wildcard.covers path = true) :
    ∃ closest, closestAmong wildcards path = some closest ∧
      wildcard.byteLength ≤ closest.byteLength := by
  have hcandidate : wildcard ∈ wildcards.filter (·.covers path) :=
    List.mem_filter.2 ⟨hmem, hcovers⟩
  cases hclosest : closestAmong wildcards path with
  | none =>
      rw [closestAmong, List.argmax_eq_none] at hclosest
      rw [hclosest] at hcandidate
      cases hcandidate
  | some closest => exact ⟨closest, rfl, List.le_of_mem_argmax hcandidate hclosest⟩

/-- One more wildcard is the closest one if it covers the path and is longer than all others. -/
theorem closestAmong_concat (wildcards : List Path) (wildcard path : Path) :
    closestAmong (wildcards ++ [wildcard]) path =
      if wildcard.covers path then
        (closestAmong wildcards path).elim (some wildcard) fun closest =>
          if closest.byteLength < wildcard.byteLength then some wildcard else some closest
      else closestAmong wildcards path := by
  simp only [closestAmong, List.filter_append, List.filter_singleton]
  cases wildcard.covers path with
  | false => simp
  | true =>
      rw [cond_true, List.argmax_concat, if_pos rfl]
      cases List.argmax byteLength (wildcards.filter (·.covers path)) <;> rfl

theorem closestAmong_concat_of_mem (hmem : wildcard ∈ wildcards) (path : Path) :
    closestAmong (wildcards ++ [wildcard]) path = closestAmong wildcards path := by
  rw [closestAmong_concat]
  split
  · next hcovers =>
      obtain ⟨closest, hclosest, hle⟩ := exists_closestAmong hmem hcovers
      rw [hclosest]
      exact if_neg (Nat.not_lt.2 hle)
  · rfl

end Path

namespace RouteTable

open WildcardCache (longestFirst mem_longestFirst)

variable {middleware : RouteTable} {path : Path}

theorem closest_eq_none_iff :
    middleware.closest path = none ↔ ∀ key ∈ middleware.keys, key.covers path = false := by
  rw [closest, Option.map_eq_none_iff, List.find?_eq_none]
  simp [mem_longestFirst, OrderedMap.keys]

theorem exists_key_of_closest {chain : Chain} (h : middleware.closest path = some chain) :
    ∃ key, (key, chain) ∈ middleware.entries ∧ key.covers path = true ∧
      ∀ other ∈ middleware.keys, other.covers path = true → other.byteLength ≤ key.byteLength := by
  obtain ⟨⟨key, _⟩, hfind, rfl⟩ := Option.map_eq_some_iff.1 h
  rw [longestFirst, find?_mergeSort_eq_argmax fun entry : Path × Chain => entry.1.byteLength]
    at hfind
  obtain ⟨hmem, hcovers⟩ := List.mem_filter.1 (List.argmax_mem hfind)
  refine ⟨key, hmem, hcovers, fun other hother hcovered => ?_⟩
  obtain ⟨entry, hentry, rfl⟩ := List.mem_map.1 hother
  exact List.le_of_mem_argmax (f := fun entry : Path × Chain => entry.1.byteLength)
    (List.mem_filter.2 ⟨hentry, hcovered⟩) hfind

theorem closest_eq_bind (h : middleware.keys.Nodup) :
    middleware.closest path = (Path.closestAmong middleware.keys path).bind middleware.get? := by
  have hkeys : Path.closestAmong middleware.keys path =
      ((longestFirst middleware).find? fun entry => entry.1.covers path).map Prod.fst := by
    rw [Path.closestAmong, ← find?_mergeSort_eq_argmax, OrderedMap.keys,
      ← List.map_mergeSort (f := Prod.fst) fun _ _ _ _ => rfl, List.find?_map]
    rfl
  rw [hkeys, closest]
  cases hfind : (longestFirst middleware).find? fun entry => entry.1.covers path with
  | none => rfl
  | some entry =>
      have hentry := mem_longestFirst.1 (List.mem_of_find?_eq_some hfind)
      exact ((OrderedMap.mem_entries_iff h).1 hentry).symm

end RouteTable

end PathRouter
