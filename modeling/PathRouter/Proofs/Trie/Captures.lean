import Mathlib.Data.List.Nodup
import PathRouter.Proofs.Trie.Fits

/-!
What a match by a walk captures. The groups of a walk are some of the groups of the trie, in their
order, so they differ from one another: each takes part once, around the stretch of its visit, and
the only end of a route among them is that of the walk.
-/

namespace PathRouter

/-! ### Marks in pairs -/

def bracketed (spans : List (Nat × Nat × Nat)) : List Mark :=
  spans.flatMap fun span => [.opened span.1 span.2.1, .closed span.1 span.2.2]

namespace Captures

/-- With the marks in pairs, a group has the first stretch under its ordinal. -/
theorem span?_bracketed (text : List Char) (spans : List (Nat × Nat × Nat)) (n : Nat) :
    (⟨text, bracketed spans⟩ : Captures).span? n = spans.lookup n := by
  induction spans with
  | nil => rfl
  | cons span spans ih =>
      obtain ⟨m, i, j⟩ := span
      simp only [span?, bracketed, List.flatMap_cons, List.cons_append, List.nil_append,
        List.findSome?_cons] at ih ⊢
      by_cases h : m = n
      · subst h
        simp
      · have hne : (n == m) = false := by simpa using Ne.symm h
        simp only [if_neg h, List.lookup_cons, hne]
        exact ih

theorem participates_bracketed {text : List Char} {spans : List (Nat × Nat × Nat)} {n : Nat} :
    (⟨text, bracketed spans⟩ : Captures).participates n = true ↔ n ∈ spans.map Prod.fst := by
  rw [participates, span?_bracketed]
  simp

theorem text?_bracketed {text : List Char} {spans : List (Nat × Nat × Nat)}
    (hnodup : (spans.map Prod.fst).Nodup) {n i j : Nat} (h : (n, i, j) ∈ spans) :
    (⟨text, bracketed spans⟩ : Captures).text? n = some (Pattern.slice text i j) := by
  have hlookup : spans.lookup n = some (i, j) := by
    induction spans with
    | nil => simp at h
    | cons span spans ih =>
        rw [List.map_cons, List.nodup_cons] at hnodup
        rcases List.mem_cons.1 h with rfl | h
        · simp
        · have hne : (n == span.1) = false := by
            simp only [beq_eq_false_iff_ne, ne_eq]
            rintro rfl
            exact hnodup.1 (List.mem_map.2 ⟨_, h, rfl⟩)
          rw [List.lookup_cons, hne]
          exact ih hnodup.2 h
  rw [text?, span?_bracketed, hlookup]
  rfl

end Captures

namespace Walk

/-- The groups that take part, by ordinal, with their stretches of a text of the given length. -/
def spans (ord : Group → Nat) (length : Nat) (w : Walk) : List (Nat × Nat × Nat) :=
  w.visits.filterMap (fun v => v.slot.map fun s => (ord (.slot s), v.start, v.stop)) ++
    [(ord (.route w.route), length, length)]

theorem marks_eq_bracketed (ord : Group → Nat) (length : Nat) (w : Walk) :
    w.marks ord length = bracketed (w.spans ord length) := by
  obtain ⟨visits, r⟩ := w
  induction visits with
  | nil => rfl
  | cons v vs ih =>
      have hmarks := marks_along ord length v ⟨vs, r⟩
      rw [along] at hmarks
      rw [hmarks, ih]
      cases h : v.slot <;> simp [Visit.marks, h, spans, bracketed]

theorem map_fst_spans (ord : Group → Nat) (length : Nat) (w : Walk) :
    (w.spans ord length).map Prod.fst = w.groups.map ord := by
  simp only [spans, groups, List.map_append, List.map_filterMap, List.map_cons, List.map_nil]
  congr 2
  funext v
  cases v.slot <;> rfl

end Walk

/-! ### The groups of a walk -/

theorem Walk.groups_of_mem_ending {text : List Char} {route : Option Nat} {i : Nat} {w : Walk}
    (h : w ∈ Walk.ending text route i) : w.groups = (route.map Group.route).toList := by
  obtain ⟨-, hroute, hvisits⟩ := Walk.mem_ending.1 h
  simp [groups, hroute, hvisits]

theorem Forest.groups_sublist {edges : Forest} {text : List Char} {i : Nat} {w : Walk}
    (h : w ∈ edges.walks text i) : w.groups.Sublist edges.groups := by
  induction edges generalizing i w with
  | nil => simp [walks] at h
  | node key slot route children siblings ihc ihs =>
      rw [groups, List.append_assoc, List.append_assoc]
      rcases List.mem_append.1 h with hfirst | hsibling
      · obtain ⟨o, -, hw⟩ := List.mem_flatMap.1 hfirst
        obtain ⟨w', hw', rfl⟩ := List.mem_map.1 hw
        rw [Walk.groups_along]
        refine List.Sublist.append (List.Sublist.refl _) ?_
        rcases List.mem_append.1 hw' with hending | hchild
        · rw [Walk.groups_of_mem_ending hending]
          exact List.sublist_append_left _ _
        · exact ((ihc hchild).trans (List.sublist_append_left _ _)).trans
            (List.sublist_append_right _ _)
      · exact ((ihs hsibling).trans (List.sublist_append_right _ _)).trans
          ((List.sublist_append_right _ _).trans (List.sublist_append_right _ _))

namespace Trie

variable {trie : Trie} {text : List Char} {w : Walk}

theorem groups_sublist_composite (h : w ∈ trie.root.walks text 0) :
    w.groups.Sublist trie.composite.groups := by
  rcases List.mem_append.1 h with hending | hchild
  · rw [Walk.groups_of_mem_ending hending]
    exact List.sublist_append_left _ _
  · exact (Forest.groups_sublist hchild).trans (List.sublist_append_right _ _)

theorem nodup_ordinals (hnodup : trie.composite.groups.Nodup) (h : w ∈ trie.root.walks text 0) :
    (w.groups.map trie.composite.ordinal).Nodup := by
  have hsub := groups_sublist_composite h
  refine List.Nodup.map_on (fun g hg g' _ e => ?_) (hsub.nodup hnodup)
  exact (List.idxOf_inj (hsub.subset hg)).1 (Nat.succ.inj e)

/-- In a match by a walk, the group of a slot has the stretch that the visit with the slot reads. -/
theorem text?_visit (hnodup : trie.composite.groups.Nodup) (h : w ∈ trie.root.walks text 0)
    {v : Visit} (hv : v ∈ w.visits) {s : Nat} (hs : v.slot = some s) :
    (⟨text, w.marks trie.composite.ordinal text.length⟩ : Captures).text?
        (trie.composite.ordinal (.slot s)) = some (Pattern.slice text v.start v.stop) := by
  rw [Walk.marks_eq_bracketed]
  refine Captures.text?_bracketed ?_ (List.mem_append_left _ (List.mem_filterMap.2 ⟨v, hv, ?_⟩))
  · rw [Walk.map_fst_spans]
    exact nodup_ordinals hnodup h
  · rw [hs]
    rfl

theorem participates_iff {ord : Group → Nat} {n : Nat} :
    (⟨text, w.marks ord text.length⟩ : Captures).participates n = true ↔
      ∃ g ∈ w.groups, ord g = n := by
  rw [Walk.marks_eq_bracketed, Captures.participates_bracketed, Walk.map_fst_spans, List.mem_map]

end Trie

end PathRouter
