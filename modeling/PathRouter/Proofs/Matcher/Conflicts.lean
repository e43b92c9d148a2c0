import Mathlib
import PathRouter.Proofs.Matcher.Kept
import PathRouter.Proofs.Trie.History

/-!
Which paths are refused. Whatever was checked or merged before, with success or not, a trie refuses
a path just if the path conflicts with one that was merged. So a matcher fails to build at the first
entry, the shortest paths being taken in first, that conflicts with a dynamic one before it.
-/

namespace PathRouter

/-! ### Entries one after the other -/

def dynamicPaths (entries : List Entry) : List Path := (dynamicEntries entries).map Prod.fst

def Entry.ConflictsIn (entry : Entry) (earlier : List Entry) : Prop :=
  ∃ r ∈ earlier, r.1.isStatic = false ∧ entry.1.Conflicts r.1

/-- No entry conflicts with a dynamic one before it. -/
def ConflictFree (entries : List Entry) : Prop :=
  entries.Pairwise fun r entry => r.1.isStatic = false → ¬entry.1.Conflicts r.1

/-- The entry is the first one that conflicts with a dynamic one before it. -/
def FirstConflict (entries : List Entry) (entry : Entry) : Prop :=
  ∃ before after, entries = before ++ entry :: after ∧ ConflictFree before ∧
    entry.ConflictsIn before

namespace Assembly

variable {taken : List Entry} {a : Assembly}

theorem conflictsIn_iff {entry : Entry} :
    (∃ earlier ∈ dynamicPaths taken, entry.1.Conflicts earlier) ↔ entry.ConflictsIn taken := by
  simp only [dynamicPaths, List.mem_map, mem_dynamicEntries]
  constructor
  · rintro ⟨_, ⟨r, ⟨hr, hdynamic⟩, rfl⟩, hconflict⟩
    exact ⟨r, hr, hdynamic, hconflict⟩
  · rintro ⟨r, hr, hdynamic, hconflict⟩
    exact ⟨r.1, ⟨r, ⟨hr, hdynamic⟩, rfl⟩, hconflict⟩

/-- An entry is refused just if it conflicts with a dynamic one that was taken in. -/
theorem add_eq_error_iff (h : Trie.Grown (dynamicPaths taken) a.trie) (entry : Entry) :
    a.add entry = .error (.unsupportedPath entry.1) ↔ entry.ConflictsIn taken := by
  obtain ⟨path, chain⟩ := entry
  rw [← conflictsIn_iff, ← h.admits_eq_false_iff]
  simp only [add]
  split
  · rw [← Trie.exists_check_eq_error_iff]
    split
    · next hcheck => simp [hcheck]
    · next e trie' hcheck => exact iff_of_true rfl ⟨e, trie', hcheck⟩
  · rw [← Trie.exists_insert_eq_error_iff a.pending.length]
    split
    · next hinsert => simp [hinsert]
    · next e trie' hinsert => exact iff_of_true rfl ⟨e, trie', hinsert⟩

theorem grown_add (h : Trie.Grown (dynamicPaths taken) a.trie) {entry : Entry} {a' : Assembly}
    (hadd : a.add entry = .ok a') : Trie.Grown (dynamicPaths (taken ++ [entry])) a'.trie := by
  obtain ⟨path, chain⟩ := entry
  rw [dynamicPaths, dynamicEntries_append]
  cases hpath : path.isStatic with
  | true =>
      simp only [Assembly.add, hpath, if_true] at hadd
      split at hadd
      · next trie hcheck =>
          cases hadd
          exact h.checked (Or.inl hcheck)
      · cases hadd
  | false =>
      simp only [Assembly.add, hpath, Bool.false_eq_true, if_false] at hadd
      split at hadd
      · next names trie hinsert =>
          cases hadd
          rw [if_neg Bool.false_ne_true, List.map_append]
          exact h.merged hinsert
      · cases hadd

/-- What was taken in is free of conflicts. -/
theorem grown_of_foldlM {entries : List Entry} (h : entries.foldlM Assembly.add {} = .ok a) :
    Trie.Grown (dynamicPaths entries) a.trie ∧
      ConflictFree entries := by
  have hempty : Trie.Grown (dynamicPaths []) ({} : Assembly).trie := Trie.Grown.empty
  refine foldlM_induction (I := fun taken (a : Assembly) => Trie.Grown (dynamicPaths taken) a.trie ∧
    ConflictFree taken) (fun taken a entry a' hold hadd => ?_) ⟨hempty, List.Pairwise.nil⟩ h
  refine ⟨grown_add hold.1 hadd, List.pairwise_append.2 ⟨hold.2, List.pairwise_singleton .., ?_⟩⟩
  intro r hr other hother hdynamic hconflict
  rw [List.mem_singleton.1 hother] at hconflict
  rw [(add_eq_error_iff hold.1 entry).2 ⟨r, hr, hdynamic, hconflict⟩] at hadd
  cases hadd

theorem exists_of_conflictFree {entries : List Entry} (h : ConflictFree entries) :
    ∃ a, entries.foldlM Assembly.add {} = .ok a := by
  cases hrun : entries.foldlM Assembly.add {} with
  | ok a => exact ⟨a, rfl⟩
  | error cause =>
      obtain ⟨before, entry, after, a', rfl, hbefore, hadd⟩ := foldlM_eq_error_iff.1 hrun
      rw [add_eq_error hadd] at hadd
      obtain ⟨r, hr, hdynamic, hconflict⟩ :=
        (add_eq_error_iff (grown_of_foldlM hbefore).1 entry).1 hadd
      exact absurd hconflict
        ((List.pairwise_append.1 h).2.2 r hr entry List.mem_cons_self hdynamic)

/-- Taking in the entries fails at the first one that conflicts with what was taken in before. -/
theorem foldlM_eq_error {entries : List Entry} {path : Path} :
    entries.foldlM Assembly.add {} = .error (.unsupportedPath path) ↔
      ∃ entry, FirstConflict entries entry ∧ entry.1 = path := by
  rw [foldlM_eq_error_iff]
  constructor
  · rintro ⟨before, entry, after, a', rfl, hbefore, hadd⟩
    obtain ⟨hgrown, hfree⟩ := grown_of_foldlM hbefore
    have hpath : entry.1 = path := by
      cases add_eq_error hadd
      rfl
    rw [← hpath] at hadd
    exact ⟨entry, ⟨before, after, rfl, hfree, (add_eq_error_iff hgrown entry).1 hadd⟩, hpath⟩
  · rintro ⟨entry, ⟨before, after, rfl, hfree, hconflict⟩, rfl⟩
    obtain ⟨a', hbefore⟩ := exists_of_conflictFree hfree
    exact ⟨before, entry, after, a', rfl, hbefore,
      (add_eq_error_iff (grown_of_foldlM hbefore).1 entry).2 hconflict⟩

end Assembly

theorem exists_firstConflict_iff {entries : List Entry} :
    (∃ entry, FirstConflict entries entry) ↔ ¬ConflictFree entries := by
  constructor
  · rintro ⟨entry, before, after, rfl, -, r, hr, hdynamic, hconflict⟩ hfree
    exact (List.pairwise_append.1 hfree).2.2 r hr entry List.mem_cons_self hdynamic hconflict
  · intro hnot
    cases hrun : entries.foldlM Assembly.add {} with
    | ok a => exact absurd (Assembly.grown_of_foldlM hrun).2 hnot
    | error cause =>
        obtain ⟨e, -, a', hadd⟩ := exists_of_foldlM_eq_error hrun
        rw [Assembly.add_eq_error hadd] at hrun
        obtain ⟨entry, hfirst, -⟩ := Assembly.foldlM_eq_error.1 hrun
        exact ⟨entry, hfirst⟩

namespace Matcher

/-- Every merged entry gets its route, because the slots of its names are among the groups. -/
theorem exists_mapM_route {entries : List Entry} {a : Assembly} (h : a.Holds entries) :
    ∃ merged, a.pending.mapM (Pending.route a.trie.composite) = .ok merged := by
  refine exists_mapM_eq_ok fun p hp => ?_
  rw [Pending.route]
  refine (exists_mapM_eq_ok fun pair hpair => ?_).elim fun params hparams =>
    ⟨⟨p.chain, params⟩, bind_eq_ok.2 ⟨params, hparams, rfl⟩⟩
  rw [(h.slots p hp).1] at hpair
  obtain ⟨key, ks, hslot⟩ := Node.exists_of_mem_namesWith hpair
  obtain ⟨ordinal, hordinal⟩ := Composite.exists_ordinalOf? (Trie.mem_groups_of_slotAt hslot)
  exact ⟨(pair.1, ordinal), by simp only [hordinal]⟩

/-- Only taking in the entries can fail because of a path. -/
theorem build_eq_unsupportedPath [SizeRule] {config : Config} {entries : List Entry} {path : Path} :
    build config entries = .error (.unsupportedPath path) ↔
      ∃ entry, FirstConflict (shortestFirst entries) entry ∧ entry.1 = path := by
  rw [← Assembly.foldlM_eq_error, build_eq_compose, compose]
  cases ha : (shortestFirst entries).foldlM Assembly.add {} with
  | error cause => simp only [bind, Except.bind, Except.error.injEq]
  | ok a =>
      obtain ⟨merged, hmerged⟩ := exists_mapM_route (Assembly.holds_of_foldlM ha)
      refine iff_of_false (fun h => ?_) (by simp)
      simp only [bind, Except.bind, hmerged] at h
      split at h
      · cases h
      · split at h <;> cases h

/-- The entries in the order in which they are taken in: by the lengths of their paths, and in the
order they were given in for each length. -/
theorem shortestFirst_spec (entries : List Entry) :
    ((shortestFirst entries).Pairwise fun e e' => e.1.byteLength ≤ e'.1.byteLength) ∧
      ∀ n, (shortestFirst entries).filter (·.1.byteLength = n) =
        entries.filter (·.1.byteLength = n) := by
  have htrans : ∀ e e' e'' : Entry, decide (e.1.byteLength ≤ e'.1.byteLength) = true →
      decide (e'.1.byteLength ≤ e''.1.byteLength) = true →
      decide (e.1.byteLength ≤ e''.1.byteLength) = true := by
    simp only [decide_eq_true_eq]
    omega
  have htotal : ∀ e e' : Entry, (decide (e.1.byteLength ≤ e'.1.byteLength) ||
      decide (e'.1.byteLength ≤ e.1.byteLength)) = true := by
    simp only [Bool.or_eq_true, decide_eq_true_eq]
    omega
  constructor
  · have hsorted := List.pairwise_mergeSort htrans htotal entries
    simpa only [shortestFirst, decide_eq_true_eq] using hsorted
  · intro n
    -- the entries of one length are in order as they stand, so sorting keeps them as a sublist
    have hordered : (entries.filter (·.1.byteLength = n)).Pairwise fun e e' =>
        decide (e.1.byteLength ≤ e'.1.byteLength) = true := by
      refine List.pairwise_of_forall_mem_list fun e he e' he' => ?_
      simp only [List.mem_filter, decide_eq_true_eq] at he he' ⊢
      omega
    have hkept := (List.sublist_mergeSort htrans htotal hordered List.filter_sublist).filter
      (·.1.byteLength = n)
    simp only [List.filter_filter, Bool.and_self] at hkept
    have hlength := ((perm_shortestFirst entries).filter (·.1.byteLength = n)).length_eq
    exact (hkept.eq_of_length hlength.symm).symm

/-- Whatever was merged or checked before, with success or not, a trie refuses a path, whether it is
to be merged or only checked, just if the path conflicts with one that was merged. A matcher is
refused for the first entry that conflicts with a dynamic one before it, in the order of their
lengths, and for no other reason that names a path. -/
theorem refused_iff_conflicts [SizeRule] :
    (∀ calls path index checkOnly,
      (∃ e trie', (Trie.place { path, index, checkOnly }).run (Trie.History.ofCalls calls).trie =
          .error e trie') ↔
        ∃ r ∈ (Trie.History.ofCalls calls).merged, path.Conflicts r.path) ∧
    ∀ config entries,
      (((shortestFirst entries).Pairwise fun e e' => e.1.byteLength ≤ e'.1.byteLength) ∧
        ∀ n, (shortestFirst entries).filter (·.1.byteLength = n) =
          entries.filter (·.1.byteLength = n)) ∧
      ((∃ path, build config entries = .error (.unsupportedPath path)) ↔
        ¬ConflictFree (shortestFirst entries)) ∧
      ∀ path, build config entries = .error (.unsupportedPath path) ↔
        ∃ entry, FirstConflict (shortestFirst entries) entry ∧ entry.1 = path := by
  refine ⟨fun calls path index checkOnly => ?_, fun config entries => ?_⟩
  · exact (Trie.History.sound_ofCalls calls).exists_place_eq_error_iff { path, index, checkOnly }
  · refine ⟨shortestFirst_spec entries, ?_, fun path => build_eq_unsupportedPath⟩
    simp only [build_eq_unsupportedPath, ← exists_firstConflict_iff]
    exact ⟨fun ⟨_, entry, h, _⟩ => ⟨entry, h⟩, fun ⟨entry, h⟩ => ⟨_, entry, h, rfl⟩⟩

/-- A literal beside a label is refused, by a trie that only checks it and by a matcher. -/
theorem refused_iff_conflicts_label :
    (∃ calls, calls = [{ path := "/a/*".toList, index := 0 },
        { path := "/a/:id".toList, index := 1 }, { path := "/a/b".toList, index := 2 }] ∧
      (∃ e trie', (Trie.place { path := "/a/b/c".toList, index := 3, checkOnly := true }).run
        (Trie.History.ofCalls calls).trie = .error e trie') ∧
      ∃ r ∈ (Trie.History.ofCalls calls).merged, Path.Conflicts "/a/b/c".toList r.path) ∧
    ∃ entry, FirstConflict (shortestFirst [("/a/:id".toList, [0]), ("/a/seconds".toList, [1]),
      ("/a/b".toList, [2])]) entry ∧ entry.1 = "/a/seconds".toList := by
  constructor
  · have hrefused : (Trie.place { path := "/a/b/c".toList, index := 3, checkOnly := true }).run'
        (Trie.History.ofCalls [{ path := "/a/*".toList, index := 0 },
          { path := "/a/:id".toList, index := 1 },
          { path := "/a/b".toList, index := 2 }]).trie = none := by
      cbv
    rw [EStateM.run'] at hrefused
    split at hrefused
    · cases hrefused
    · next e trie' hrun =>
        exact ⟨_, rfl, ⟨e, trie', hrun⟩, (refused_iff_conflicts.1 _ _ 3 true).1 ⟨e, trie', hrun⟩⟩
  · exact ((refused_iff_conflicts.2 {} _).2.2 _).1 (by cbv)

end Matcher

end PathRouter
