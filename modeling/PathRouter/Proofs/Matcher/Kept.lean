import PathRouter.Proofs.Matcher.Lookup

/-!
A matcher keeps all the entries that it is built from, and has nothing else. A static entry stands
in the table under its own path. A dynamic entry has one of the routes to itself: the one under the
ordinal of the group in which its path ends. Two dynamic entries with one path would need the same
end in the trie, so they are refused.
-/

namespace PathRouter

/-- The merged entries have different paths, because each of them ends at a node of its own. -/
theorem Assembly.Holds.nodup_pending {entries : List Entry} {a : Assembly} (h : a.Holds entries) :
    (a.pending.map Pending.path).Nodup := by
  rw [List.nodup_iff_getElem?_ne_getElem?]
  intro i j hij hj hsame
  rw [List.length_map] at hj
  have hpj : a.pending[j]? = some a.pending[j] := List.getElem?_eq_getElem hj
  have hpi : a.pending[i]? = some a.pending[i] := List.getElem?_eq_getElem (Nat.lt_trans hij hj)
  rw [List.getElem?_map, List.getElem?_map, hpi, hpj, Option.map_some, Option.map_some,
    Option.some.injEq] at hsame
  have hroute_i := (h.routes _ i).2 ⟨_, hpi, rfl⟩
  have hroute_j := (h.routes _ j).2 ⟨_, hpj, rfl⟩
  rw [hsame, hroute_j, Option.some.injEq] at hroute_i
  exact Nat.ne_of_lt hij hroute_i.symm

theorem Assembly.add_eq_error {a : Assembly} {entry : Entry} {e : RouterError}
    (h : a.add entry = .error e) : e = .unsupportedPath entry.1 := by
  rw [Assembly.add] at h
  split at h
  · split at h
    · cases h
    · exact (Except.error.inj h).symm
  · split at h
    · cases h
    · exact (Except.error.inj h).symm

namespace Matcher

/-- The matcher has each static entry in its table, and each other entry under an ordinal of its
own, and has nothing else. -/
structure Keeps (matcher : Matcher) (entries : List Entry) (ordinal : Path → Nat) : Prop where
  nodup_statics : matcher.statics.keys.Nodup
  statics : ∀ e, e ∈ matcher.statics.entries ↔ e ∈ entries ∧ e.1.isStatic = true
  routes : ∀ e ∈ entries, e.1.isStatic = false →
    ∃ r, matcher.routes[ordinal e.1]? = some (some r) ∧ r.chain = e.2
  apart : ∀ e ∈ entries, ∀ e' ∈ entries, e.1.isStatic = false → e'.1.isStatic = false →
    ordinal e.1 = ordinal e'.1 → e = e'
  only : ∀ n r, matcher.routes[n]? = some (some r) →
    ∃ e ∈ entries, e.1.isStatic = false ∧ ordinal e.1 = n
  /-- The group of an entry takes part in matches of texts that the entry matches on its own. -/
  matched : ∀ text captures, (matcher.pattern.bind (·.search text)) = some captures →
    ∀ e ∈ entries, e.1.isStatic = false → captures.participates (ordinal e.1) = true →
      e.1.Matches text

theorem perm_shortestFirst (entries : List Entry) : (shortestFirst entries).Perm entries :=
  List.mergeSort_perm ..

theorem nodup_dynamicEntries {entries : List Entry} {a : Assembly}
    (h : a.Holds (shortestFirst entries)) : ((dynamicEntries entries).map Prod.fst).Nodup := by
  have hperm := ((perm_shortestFirst entries).filter (!·.1.isStatic)).map Prod.fst
  have hpaths := h.nodup_pending
  have hpending := congrArg (List.map Prod.fst) h.pending
  rw [List.map_map] at hpending
  rw [show Pending.path = Prod.fst ∘ fun p : Pending => (p.path, p.chain) from rfl, hpending]
    at hpaths
  exact hperm.nodup_iff.1 hpaths

theorem build_eq_error [SizeRule] (config : Config) {entries : List Entry}
    (h : ¬((dynamicEntries entries).map Prod.fst).Nodup) :
    ∃ e ∈ entries, build config entries = .error (.unsupportedPath e.1) := by
  cases ha : (shortestFirst entries).foldlM Assembly.add {} with
  | ok a => exact absurd (nodup_dynamicEntries (Assembly.holds_of_foldlM ha)) h
  | error cause =>
      obtain ⟨e, he, _, hadd⟩ := exists_of_foldlM_eq_error ha
      refine ⟨e, mem_shortestFirst.1 he, ?_⟩
      rw [build_eq_compose, compose, ha, ← Assembly.add_eq_error hadd]
      rfl

namespace Built

variable {entries : List Entry} {matcher : Matcher} {a : Assembly} {merged : List Route}

def ordinalOf (a : Assembly) (path : Path) : Nat :=
  (a.trie.root.routeAt path.keys).elim 0 fun index => a.trie.composite.ordinal (.route index)

theorem ordinalOf_pending (h : Built entries matcher a merged) {i : Nat} {p : Pending}
    (hp : a.pending[i]? = some p) :
    Group.route i ∈ a.trie.composite.groups ∧
      ordinalOf a p.path = a.trie.composite.groups.idxOf (.route i) + 1 := by
  have hroute : a.trie.root.routeAt p.path.keys = some i := (h.holds.routes _ _).2 ⟨p, hp, rfl⟩
  refine ⟨Trie.mem_groups_of_routeAt hroute, ?_⟩
  rw [ordinalOf, hroute, Option.elim_some, Composite.ordinal]

theorem exists_pending (h : Built entries matcher a merged) {e : Entry} (he : e ∈ entries)
    (hdynamic : e.1.isStatic = false) :
    ∃ (i : Nat) (p : Pending), a.pending[i]? = some p ∧ (p.path, p.chain) = e := by
  obtain ⟨p, hp, heq⟩ := h.mem_pending.2 ⟨he, hdynamic⟩
  obtain ⟨i, hi⟩ := List.getElem?_of_mem hp
  exact ⟨i, p, hi, heq⟩

/-- Groups of routes that stand in one place are those of one route. -/
theorem eq_of_idxOf_eq {groups : List Group} {i j : Nat} (hi : Group.route i ∈ groups)
    (h : groups.idxOf (.route i) = groups.idxOf (.route j)) : i = j := by
  have hgroups : Group.route i = .route j := (List.idxOf_inj hi).1 h
  cases hgroups
  rfl

theorem nodup_statics (h : Built entries matcher a merged) : matcher.statics.keys.Nodup := by
  rw [h.statics, h.holds.statics]
  exact OrderedMap.nodup_keys_ofList _

theorem mem_statics_iff (h : Built entries matcher a merged)
    (hdistinct : (entries.map Prod.fst).Nodup) {e : Entry} :
    e ∈ matcher.statics.entries ↔ e ∈ entries ∧ e.1.isStatic = true := by
  rw [OrderedMap.mem_entries_iff h.nodup_statics, h.statics]
  constructor
  · intro hget
    rw [h.holds.statics] at hget
    obtain ⟨he, hstatic⟩ := mem_staticEntries.1 (OrderedMap.mem_of_get?_ofList hget)
    exact ⟨mem_shortestFirst.1 he, hstatic⟩
  · rintro ⟨he, hstatic⟩
    apply h.get?_statics hstatic he
    intro e' he' heq
    exact congrArg Prod.snd (List.inj_on_of_nodup_map hdistinct he' he heq)

/-- Only the route in whose group a match ends takes part in it. -/
theorem matches_of_participates (h : Built entries matcher a merged) {text : List Char}
    {captures : Captures} (hsearch : (matcher.pattern.bind (·.search text)) = some captures)
    {i : Nat} {p : Pending} (hp : a.pending[i]? = some p)
    (hpart : captures.participates (ordinalOf a p.path) = true) : p.path.Matches text := by
  rw [h.pattern, Trie.search_composite h.holds.proper h.nodup_groups, Option.map_eq_some_iff]
    at hsearch
  obtain ⟨w, hw, rfl⟩ := hsearch
  have hmem : w ∈ a.trie.root.walks text 0 := List.mem_of_head? hw
  obtain ⟨q, hq, hkeys⟩ :=
    (h.holds.routes _ _).1 ((Node.mem_walks h.holds.proper).1 hmem).routeAt
  obtain ⟨route, hroute, -⟩ := exists_getElem?_of_forall₂ h.routed hq
  obtain ⟨route', hroute', -⟩ := exists_getElem?_of_forall₂ h.routed hp
  obtain ⟨hgroup, hordinal⟩ := h.ordinalOf_pending hp
  have hlive := h.getElem?_routes.2 ⟨_, i, hordinal, List.getElem?_idxOf hgroup, hroute'⟩
  have hend := (h.participates_iff hmem hroute).1 ⟨hpart, _, hlive⟩
  rw [hordinal, Composite.ordinal, Nat.add_right_cancel_iff] at hend
  obtain rfl := eq_of_idxOf_eq hgroup hend
  rw [hp, Option.some.injEq] at hq
  rw [← hq] at hkeys
  exact ⟨_, h.reading_of_walk hmem hkeys⟩

theorem keeps (h : Built entries matcher a merged) (hdistinct : (entries.map Prod.fst).Nodup) :
    matcher.Keeps entries (ordinalOf a) := by
  constructor
  case nodup_statics => exact h.nodup_statics
  case statics =>
    intro e
    exact h.mem_statics_iff hdistinct
  case routes =>
    intro e he hdynamic
    obtain ⟨i, p, hp, rfl⟩ := h.exists_pending he hdynamic
    obtain ⟨hgroup, hordinal⟩ := h.ordinalOf_pending hp
    obtain ⟨route, hmerged, hroute⟩ := exists_getElem?_of_forall₂ h.routed hp
    refine ⟨route, ?_, (Pending.route_eq_ok hroute ⟨[], []⟩).1⟩
    exact h.getElem?_routes.2 ⟨_, i, hordinal, List.getElem?_idxOf hgroup, hmerged⟩
  case apart =>
    intro e he e' he' hdynamic hdynamic' hsame
    obtain ⟨i, p, hp, rfl⟩ := h.exists_pending he hdynamic
    obtain ⟨i', p', hp', rfl⟩ := h.exists_pending he' hdynamic'
    obtain ⟨hgroup, hordinal⟩ := h.ordinalOf_pending hp
    obtain ⟨-, hordinal'⟩ := h.ordinalOf_pending hp'
    rw [hordinal, hordinal', Nat.add_right_cancel_iff] at hsame
    obtain rfl := eq_of_idxOf_eq hgroup hsame
    rw [hp, Option.some.injEq] at hp'
    rw [hp']
  case only =>
    intro n r hr
    obtain ⟨k, index, rfl, hgroup, hmerged⟩ := h.getElem?_routes.1 hr
    obtain ⟨p, hp, -⟩ := exists_getElem?_of_forall₂ h.routed.flip hmerged
    obtain ⟨he, hdynamic⟩ := h.mem_pending.1 ⟨p, List.mem_of_getElem? hp, rfl⟩
    refine ⟨_, he, hdynamic, ?_⟩
    obtain ⟨hk, hplace⟩ := List.getElem?_eq_some_iff.1 hgroup
    rw [(h.ordinalOf_pending hp).2, ← hplace, h.nodup_groups.idxOf_getElem]
  case matched =>
    intro text captures hsearch e he hdynamic hpart
    obtain ⟨i, p, hp, rfl⟩ := h.exists_pending he hdynamic
    exact h.matches_of_participates hsearch hp hpart

end Built

end Matcher

end PathRouter
