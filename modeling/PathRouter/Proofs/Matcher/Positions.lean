import PathRouter.Proofs.Matcher.Conflicts

/-!
Which entries clash, told by pairs of positions. An entry is taken in before another one if its path
is shorter, or as long and further in front. So a matcher is refused for its paths just if there are
two positions of which the first one comes first and refuses the second one.
-/

namespace PathRouter

/-- The path is refused when the other one is there already: the other one is not static, and they
conflict. -/
def Path.RefusedBehind (path earlier : Path) : Prop :=
  earlier.isStatic = false ∧ path.Conflicts earlier

instance (path earlier : Path) : Decidable (path.RefusedBehind earlier) :=
  inferInstanceAs (Decidable (_ ∧ _))

def ComesFirst (entries : List Entry) (i j : Nat) : Prop :=
  ∃ e ∈ entries[i]?, ∃ e' ∈ entries[j]?,
    e.1.byteLength < e'.1.byteLength ∨ e.1.byteLength = e'.1.byteLength ∧ i < j

instance (entries : List Entry) (i j : Nat) : Decidable (ComesFirst entries i j) :=
  inferInstanceAs (Decidable (∃ e ∈ entries[i]?, _))

def Refuses (entries : List Entry) (i j : Nat) : Prop :=
  ∃ e ∈ entries[i]?, ∃ e' ∈ entries[j]?, e'.1.RefusedBehind e.1

instance (entries : List Entry) (i j : Nat) : Decidable (Refuses entries i j) :=
  inferInstanceAs (Decidable (∃ e ∈ entries[i]?, _))

def RefusesOneWay (entries : List Entry) (i j : Nat) : Prop :=
  Refuses entries i j ∧ ¬Refuses entries j i

instance (entries : List Entry) (i j : Nat) : Decidable (RefusesOneWay entries i j) :=
  inferInstanceAs (Decidable (_ ∧ ¬_))

theorem ComesFirst.ne {entries : List Entry} {i j : Nat} (h : ComesFirst entries i j) : i ≠ j := by
  rintro rfl
  obtain ⟨e, hi, e', hj, horder⟩ := h
  obtain rfl : e = e' := Option.some.inj (hi.symm.trans hj)
  omega

theorem Refuses.comesFirst {entries : List Entry} {i j : Nat} (h : Refuses entries i j)
    (hne : i ≠ j) : ComesFirst entries i j ∨ ComesFirst entries j i := by
  obtain ⟨e, hi, e', hj, -⟩ := h
  have horder : (e.1.byteLength < e'.1.byteLength ∨ e.1.byteLength = e'.1.byteLength ∧ i < j) ∨
      e'.1.byteLength < e.1.byteLength ∨ e'.1.byteLength = e.1.byteLength ∧ j < i := by
    omega
  exact horder.imp (⟨e, hi, e', hj, ·⟩) (⟨e', hj, e, hi, ·⟩)

namespace Matcher

/-- The entries with their positions, in the order in which they are taken in. -/
def positioned (entries : List Entry) : List (Entry × Nat) :=
  entries.zipIdx.mergeSort (List.zipIdxLE fun e e' => decide (e.1.byteLength ≤ e'.1.byteLength))

theorem map_fst_positioned (entries : List Entry) :
    (positioned entries).map Prod.fst = shortestFirst entries :=
  List.mergeSort_zipIdx

theorem mem_positioned {entries : List Entry} {e : Entry} {i : Nat} :
    (e, i) ∈ positioned entries ↔ entries[i]? = some e := by
  rw [positioned, List.mem_mergeSort, List.mem_zipIdx_iff_getElem?]

theorem nodup_positioned (entries : List Entry) : (positioned entries).Nodup := by
  rw [positioned, (List.mergeSort_perm ..).nodup_iff]
  apply List.Nodup.of_map Prod.snd
  rw [List.zipIdx_map_snd]
  exact List.nodup_range'

/-- Positions are in order by the lengths of the paths, and those of paths of one length by
themselves. -/
theorem pairwise_positioned (entries : List Entry) : (positioned entries).Pairwise fun p q =>
    p.1.1.byteLength < q.1.1.byteLength ∨
      p.1.1.byteLength = q.1.1.byteLength ∧ p.2 ≤ q.2 := by
  have hsorted : (positioned entries).Pairwise fun p q => List.zipIdxLE
      (fun e e' => decide (e.1.byteLength ≤ e'.1.byteLength)) p q = true := by
    apply List.pairwise_mergeSort
    · apply List.zipIdxLE_trans
      simp only [decide_eq_true_eq]
      omega
    · apply List.zipIdxLE_total
      simp only [Bool.or_eq_true, decide_eq_true_eq]
      omega
  refine hsorted.imp fun {p q} hle => ?_
  simp only [List.zipIdxLE, decide_eq_true_eq] at hle
  split at hle
  · split at hle
    · rw [decide_eq_true_eq] at hle
      omega
    · omega
  · cases hle

/-- The entries are free of conflicts in their order just if no one that comes first refuses another
one. -/
theorem conflictFree_iff {entries : List Entry} : ConflictFree (shortestFirst entries) ↔
    ∀ i j, ComesFirst entries i j → ¬Refuses entries i j := by
  rw [ConflictFree, ← map_fst_positioned, List.pairwise_map]
  constructor
  · rintro hfree i j ⟨e, hi, e', hj, hfirst⟩ ⟨f, hi', f', hj', hdynamic, hconflict⟩
    obtain rfl : e = f := Option.some.inj (hi.symm.trans hi')
    obtain rfl : e' = f' := Option.some.inj (hj.symm.trans hj')
    obtain ⟨m, hm, hmi⟩ := List.getElem_of_mem (mem_positioned.2 hi)
    obtain ⟨n, hn, hnj⟩ := List.getElem_of_mem (mem_positioned.2 hj)
    rcases Nat.lt_trichotomy m n with hlt | rfl | hgt
    · have hpair := List.pairwise_iff_getElem.1 hfree m n hm hn hlt
      rw [hmi, hnj] at hpair
      exact hpair hdynamic hconflict
    · obtain ⟨rfl, rfl⟩ := Prod.mk.inj (hmi.symm.trans hnj)
      omega
    · have hle := List.pairwise_iff_getElem.1 (pairwise_positioned entries) n m hn hm hgt
      simp only [hmi, hnj] at hle
      omega
  · intro hall
    refine ((pairwise_positioned entries).and (nodup_positioned entries)).imp_of_mem ?_
    rintro p q hp hq ⟨hle, hne⟩ hdynamic hconflict
    have hi := mem_positioned.1 hp
    have hj := mem_positioned.1 hq
    refine hall p.2 q.2 ⟨p.1, hi, q.1, hj, ?_⟩ ⟨p.1, hi, q.1, hj, hdynamic, hconflict⟩
    have hpositions : p.2 ≠ q.2 := by
      intro hsame
      rw [← hsame, hi] at hj
      exact hne (Prod.ext (Option.some.inj hj) hsame)
    omega

/-- A matcher is refused for a path just if an entry that comes first refuses another one. -/
theorem build_refused_iff [SizeRule] {config : Config} {entries : List Entry} :
    (∃ path, build config entries = .error (.unsupportedPath path)) ↔
      ∃ i j, ComesFirst entries i j ∧ Refuses entries i j := by
  have hfree : (∃ path, build config entries = .error (.unsupportedPath path)) ↔
      ¬ConflictFree (shortestFirst entries) := by
    rw [← exists_firstConflict_iff]
    simp only [build_eq_unsupportedPath]
    constructor
    · rintro ⟨path, entry, hfirst, -⟩
      exact ⟨entry, hfirst⟩
    · rintro ⟨entry, hfirst⟩
      exact ⟨entry.1, entry, hfirst, rfl⟩
  rw [hfree, conflictFree_iff]
  simp only [not_forall, not_not, exists_prop]

end Matcher

end PathRouter
