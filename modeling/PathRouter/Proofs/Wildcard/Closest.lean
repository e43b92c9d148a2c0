import Mathlib
import PathRouter.Proofs.RouteTable
import PathRouter.Proofs.Wildcard.Cache

/-!
The search for the closest middleware, with whatever is in the cache. Calls before it can only have
cached what compiling gives, be it that they failed or not, so the search answers as it does with an
empty cache. If all paths of the table compile, it finds the longest one that covers the path, and
of several the one that was set first.
-/

namespace PathRouter

section

variable [SizeRule]

namespace WildcardCache

variable {β : Type} {cache : WildcardCache} {path : Path}

/-! ### What calls answer and what they leave -/

def answer (call : EStateM RouterError WildcardCache β) (cache : WildcardCache) :
    Except RouterError β :=
  match call.run cache with
  | .ok result _ => .ok result
  | .error e _ => .error e

/-- The cache after a call, whether it has failed or not. -/
def after (call : EStateM RouterError WildcardCache β) (cache : WildcardCache) : WildcardCache :=
  match call.run cache with
  | .ok _ left => left
  | .error _ left => left

inductive Reachable : WildcardCache → Prop
  | empty : Reachable {}
  | wildcard {cache : WildcardCache} (path : Path) :
    Reachable cache → Reachable (after (wildcard path) cache)
  | findMiddleware {cache : WildcardCache} (middleware : RouteTable) (path : Path) :
    Reachable cache → Reachable (after (findMiddleware middleware path) cache)

theorem Sound.after_wildcard (h : cache.Sound) (path : Path) :
    (after (wildcard path) cache).Sound := by
  cases hcompiled : Wildcard.ofPath path with
  | ok new =>
      obtain ⟨left, hrun, hleft, -⟩ := h.run_wildcard hcompiled
      rwa [after, hrun]
  | error e => rwa [after, h.run_wildcard_error hcompiled]

def firstCoveringUncached (path : Path) : List (Path × Chain) → Except RouterError (Option Chain)
  | [] => .ok none
  | (key, chain) :: rest => do
    if (← Wildcard.ofPath key).covers path then pure (some chain)
    else firstCoveringUncached path rest

theorem firstCoveringUncached_cons {key : Path} {compiled : Wildcard}
    (hcompiled : Wildcard.ofPath key = .ok compiled) (chain : Chain) (rest : List (Path × Chain)) :
    firstCoveringUncached path ((key, chain) :: rest) =
      if compiled.covers path then .ok (some chain) else firstCoveringUncached path rest := by
  rw [firstCoveringUncached, hcompiled]
  rfl

/-- With a sound cache the search answers as it does without one, and leaves a sound cache. -/
theorem Sound.firstCovering (h : cache.Sound) (path : Path) (entries : List (Path × Chain)) :
    answer (firstCovering path entries) cache = firstCoveringUncached path entries ∧
      (after (firstCovering path entries) cache).Sound := by
  induction entries generalizing cache with
  | nil => exact ⟨rfl, h⟩
  | cons entry rest ih =>
      obtain ⟨key, chain⟩ := entry
      rw [answer, after, WildcardCache.firstCovering]
      cases hcompiled : Wildcard.ofPath key with
      | error e =>
          rw [run_bind_of_error (h.run_wildcard_error hcompiled), firstCoveringUncached, hcompiled]
          exact ⟨rfl, h⟩
      | ok new =>
          obtain ⟨left, hrun, hleft, -⟩ := h.run_wildcard hcompiled
          rw [run_bind_of_ok hrun, firstCoveringUncached_cons hcompiled]
          cases new.covers path with
          | true => exact ⟨rfl, hleft⟩
          | false => exact ih hleft

theorem Reachable.sound (h : cache.Reachable) : cache.Sound := by
  induction h with
  | empty => exact sound_empty
  | wildcard path _ ih => exact ih.after_wildcard path
  | findMiddleware middleware path _ ih => exact (ih.firstCovering path _).2

theorem firstCoveringUncached_eq {entries : List (Path × Chain)}
    (h : ∀ entry ∈ entries, ∃ wildcard, Wildcard.ofPath entry.1 = .ok wildcard) :
    firstCoveringUncached path entries =
      .ok ((entries.find? fun entry => entry.1.covers path).map Prod.snd) := by
  induction entries with
  | nil => rfl
  | cons entry rest ih =>
      obtain ⟨key, chain⟩ := entry
      obtain ⟨compiled, hok⟩ := h _ List.mem_cons_self
      have hrest := ih fun entry hentry => h entry (List.mem_cons_of_mem _ hentry)
      rw [firstCoveringUncached_cons hok, List.find?_cons, Path.covers_eq hok]
      cases compiled.covers path with
      | true => rfl
      | false => exact hrest

end WildcardCache

omit [SizeRule] in
/-- In a list that is in order, the greatest element comes before the others that are as great. -/
theorem lt_or_before_of_argmax {α : Type} [DecidableEq α] {f : α → Nat} {R : α → α → Prop}
    {l : List α} (hordered : l.Pairwise R) {greatest other : α}
    (hgreatest : l.argmax f = some greatest) (hother : other ∈ l) (hne : other ≠ greatest) :
    f other < f greatest ∨ (f other = f greatest ∧ R greatest other) := by
  obtain ⟨hmem, hle, hfirst⟩ := List.argmax_eq_some_iff.1 hgreatest
  rcases Nat.lt_or_eq_of_le (hle other hother) with hlt | heq
  · exact Or.inl hlt
  · have hplaces := Nat.lt_of_le_of_ne (hfirst other hother (Nat.le_of_eq heq.symm)) fun hsame =>
      hne ((List.idxOf_inj hmem).1 hsame).symm
    have hbefore := List.pairwise_iff_getElem.1 hordered _ _ (List.idxOf_lt_length_of_mem hmem)
      (List.idxOf_lt_length_of_mem hother) hplaces
    rw [List.getElem_idxOf, List.getElem_idxOf] at hbefore
    exact Or.inr ⟨heq, hbefore⟩

namespace RouteTable

variable {changes : List Change} {path key other : Path}

/-- The listed path covers the given one, and of all that do it is the longest one, or the one of
them that was set first. -/
structure IsClosest (changes : List Change) (path key : Path) : Prop where
  listed : key ∈ (ofChanges changes).keys
  covers : key.covers path = true
  first : ∀ other ∈ (ofChanges changes).keys, other.covers path = true → other ≠ key →
    other.byteLength < key.byteLength ∨ (other.byteLength = key.byteLength ∧
      (setPaths changes).idxOf key < (setPaths changes).idxOf other)

theorem IsClosest.unique (h : IsClosest changes path key) (h' : IsClosest changes path other) :
    key = other := by
  by_contra hne
  have hkey := h'.first key h.listed h.covers hne
  have hother := h.first other h'.listed h'.covers (Ne.symm hne)
  omega

/-- The longest path, and the first one of those that are equally long, is the closest. -/
theorem isClosest_of_closestAmong
    (h : Path.closestAmong (ofChanges changes).keys path = some key) :
    IsClosest changes path key := by
  obtain ⟨hlisted, hcovers⟩ := List.mem_filter.1 (List.argmax_mem h)
  refine ⟨hlisted, hcovers, fun other hother hcovered hne => ?_⟩
  -- the paths that cover are listed in the order in which all are, hence as they were set
  have hordered := (pairwise_keys_ofChanges changes).filter (Path.covers · path)
  exact lt_or_before_of_argmax hordered h (List.mem_filter.2 ⟨hother, hcovered⟩) hne

theorem closest_eq_some_iff {chain : Chain} : (ofChanges changes).closest path = some chain ↔
    ∃ key, IsClosest changes path key ∧ (ofChanges changes).get? key = some chain := by
  rw [closest_eq_bind (nodup_keys_ofChanges changes), Option.bind_eq_some_iff]
  constructor
  · rintro ⟨key, hkey, hget⟩
    exact ⟨key, isClosest_of_closestAmong hkey, hget⟩
  · rintro ⟨key, hclosest, hget⟩
    obtain ⟨found, hfound, -⟩ := Path.exists_closestAmong hclosest.listed hclosest.covers
    rw [(isClosest_of_closestAmong hfound).unique hclosest] at hfound
    exact ⟨key, hfound, hget⟩

end RouteTable

namespace WildcardCache

variable {cache : WildcardCache}

/-- The search for middleware answers as it does with an empty cache, whatever calls were made
before. Where all paths of the table compile it succeeds: there is no chain just if no path covers
the given one, and otherwise it is the chain of the closest path. -/
theorem findMiddleware_closest (h : cache.Reachable) (changes : List RouteTable.Change)
    (path : Path) :
    let middleware := RouteTable.ofChanges changes
    answer (findMiddleware middleware path) cache = answer (findMiddleware middleware path) {} ∧
    ((∀ key ∈ middleware.keys, ∃ wildcard, Wildcard.ofPath key = .ok wildcard) →
      ∃ found, answer (findMiddleware middleware path) cache = .ok found ∧
        (found = none ↔ ∀ key ∈ middleware.keys, key.covers path = false) ∧
        ∀ chain, found = some chain ↔
          ∃ key, RouteTable.IsClosest changes path key ∧ middleware.get? key = some chain) := by
  intro middleware
  have hsound := (h.sound.firstCovering path (longestFirst middleware)).1
  have hempty := (sound_empty.firstCovering path (longestFirst middleware)).1
  refine ⟨hsound.trans hempty.symm, fun hcompile => ?_⟩
  refine ⟨middleware.closest path, hsound.trans (firstCoveringUncached_eq fun entry hentry => ?_),
    RouteTable.closest_eq_none_iff, fun chain => RouteTable.closest_eq_some_iff⟩
  exact hcompile _ (List.mem_map_of_mem (mem_longestFirst.1 hentry))

end WildcardCache

end

/-- Two wildcards of one length cover the path; the one that was set first is set again later, and
one call before has failed. -/
theorem WildcardCache.findMiddleware_closest_tie :
    let changes : List RouteTable.Change := [.set "*".toList [0], .set "/*/b".toList [],
      .set "/a/*".toList [1], .set "/*/b".toList [2], .modify "/*/b".toList (· ++ [3])]
    let cache := after (findMiddleware (.ofChanges changes) "/a/c".toList)
      (after (wildcard (List.replicate 30000 '*')) {})
    cache.Reachable ∧
      (∀ key ∈ (RouteTable.ofChanges changes).keys,
        ∃ wildcard, Wildcard.ofPath key = .ok wildcard) ∧
      RouteTable.IsClosest changes "/a/b".toList "/*/b".toList ∧
      answer (findMiddleware (.ofChanges changes) "/a/b".toList) cache = .ok (some [2, 3]) := by
  intro changes cache
  have hreachable : cache.Reachable :=
    (Reachable.empty.wildcard (List.replicate 30000 '*')).findMiddleware _ _
  have hkeys : (RouteTable.ofChanges changes).keys =
      ["*".toList, "/*/b".toList, "/a/*".toList] := by
    decide
  have hcompile : ∀ key ∈ (RouteTable.ofChanges changes).keys,
      ∃ wildcard, Wildcard.ofPath key = .ok wildcard := by
    rw [hkeys]
    simp only [List.forall_mem_cons]
    exact ⟨⟨.everything, rfl⟩, ⟨_, by cbv⟩, ⟨_, by cbv⟩, by simp⟩
  have hclosest : RouteTable.IsClosest changes "/a/b".toList "/*/b".toList := by
    refine ⟨by decide, by cbv, ?_⟩
    rw [hkeys]
    simp only [List.forall_mem_cons]
    refine ⟨fun _ _ => Or.inl (by decide), fun _ hne => absurd rfl hne,
      fun _ _ => Or.inr (by decide), by simp⟩
  refine ⟨hreachable, hcompile, hclosest, ?_⟩
  obtain ⟨found, hanswer, -, hfound⟩ :=
    (findMiddleware_closest hreachable changes "/a/b".toList).2 hcompile
  rw [hanswer, (hfound [2, 3]).2 ⟨_, hclosest, by decide⟩]

end PathRouter
