import PathRouter.Proofs.Pattern.Outcomes

/-!
Between which positions a pattern matches, when preference does not matter. `Spans` forgets the
order and the marks of the outcomes; each constructor has an equation for it. The stretch of text
between two positions is a `slice`, and slices that meet can be put together.
-/

namespace PathRouter

namespace Pattern

/-! ### Slices -/

def slice (text : List Char) (i j : Nat) : List Char := (text.drop i).take (j - i)

@[simp] theorem slice_self (text : List Char) (i : Nat) : slice text i i = [] := by
  simp [slice]

theorem length_slice {text : List Char} {i j : Nat} (hj : j ≤ text.length) :
    (slice text i j).length = j - i := by
  rw [slice, List.length_take, List.length_drop]
  omega

theorem slice_to_end (text : List Char) (i : Nat) : slice text i text.length = text.drop i := by
  rw [slice, List.take_of_length_le (by simp)]

theorem slice_append {text : List Char} {i j k : Nat} (hij : i ≤ j) (hjk : j ≤ k) :
    slice text i j ++ slice text j k = slice text i k := by
  have hk : k - i = (j - i) + (k - j) := by omega
  have hdrop : text.drop j = (text.drop i).drop (j - i) := by
    rw [List.drop_drop]
    congr 1
    omega
  rw [slice, slice, slice, hk, hdrop, List.take_add]

theorem slice_of_drop_eq {text s rest : List Char} {i : Nat} (h : text.drop i = s ++ rest) :
    slice text i (i + s.length) = s := by
  rw [slice, h, Nat.add_sub_cancel_left, List.take_left']
  rfl

theorem drop_of_drop_eq {text s rest : List Char} {i : Nat} (h : text.drop i = s ++ rest) :
    text.drop (i + s.length) = rest := by
  rw [← List.drop_drop, h, List.drop_left']
  rfl

theorem slice_succ {text : List Char} {i : Nat} {c : Char} (h : text[i]? = some c) {j : Nat}
    (hij : i < j) : slice text i j = c :: slice text (i + 1) j := by
  obtain ⟨hi, rfl⟩ := List.getElem?_eq_some_iff.1 h
  have hj : j - i = (j - (i + 1)) + 1 := by omega
  rw [slice, slice, List.drop_eq_getElem_cons hi, hj, List.take_succ_cons]

/-! ### Spans -/

def Spans (p : Pattern) (text : List Char) (i j : Nat) : Prop :=
  ∃ marks, (j, marks) ∈ p.outcomes text i

/-- The runs of a class at the front of a text are all that stay in the class. -/
theorem mem_runLengths {inClass : Char → Bool} {text : List Char} {n : Nat} :
    n ∈ runLengths inClass text ↔ n ≤ text.length ∧ ∀ c ∈ text.take n, inClass c = true := by
  induction text generalizing n with
  | nil => cases n <;> simp [runLengths]
  | cons c text ih =>
      cases n with
      | zero => by_cases hc : inClass c <;> simp [runLengths, hc]
      | succ n => by_cases hc : inClass c <;> simp [runLengths, hc, ih]

@[simp] theorem spans_empty {text : List Char} {i j : Nat} : empty.Spans text i j ↔ j = i := by
  simp [Spans, outcomes]

@[simp] theorem spans_start {text : List Char} {i j : Nat} :
    start.Spans text i j ↔ i = 0 ∧ j = 0 := by
  by_cases hi : i = 0 <;> simp [Spans, outcomes, hi]

@[simp] theorem spans_stop {text : List Char} {i j : Nat} :
    stop.Spans text i j ↔ i = text.length ∧ j = text.length := by
  by_cases hi : i = text.length <;> simp [Spans, outcomes, hi]

@[simp] theorem spans_char {c : Char} {text : List Char} {i j : Nat} :
    (char c).Spans text i j ↔ text[i]? = some c ∧ j = i + 1 := by
  cases hi : text[i]? with
  | none => simp [Spans, outcomes, hi]
  | some d => by_cases hd : d = c <;> simp [Spans, outcomes, hi, hd]

theorem spans_anyRun {text : List Char} {i j : Nat} (hi : i ≤ text.length) :
    anyRun.Spans text i j ↔ i ≤ j ∧ j ≤ text.length ∧ '\n' ∉ slice text i j := by
  simp only [Spans, outcomes, List.mem_map, Prod.mk.injEq, mem_runLengths, List.length_drop]
  constructor
  · rintro ⟨marks, n, ⟨hn, hclass⟩, rfl, rfl⟩
    refine ⟨by omega, by omega, fun hmem => ?_⟩
    rw [slice, Nat.add_sub_cancel_left] at hmem
    simpa [inLine] using hclass _ hmem
  · rintro ⟨hij, hj, hclass⟩
    refine ⟨[], j - i, ⟨by omega, fun c hc => ?_⟩, by omega, rfl⟩
    have hne : c ≠ '\n' := by
      rintro rfl
      exact hclass hc
    simpa [inLine] using hne

theorem spans_segment {text : List Char} {i j : Nat} :
    segment.Spans text i j ↔ i < j ∧ j ≤ text.length ∧ '/' ∉ slice text i j := by
  cases hi : text[i]? with
  | none =>
      have hlen := List.getElem?_eq_none_iff.1 hi
      simp only [Spans, outcomes, hi, Option.any_none]
      constructor
      · simp
      · omega
  | some c =>
      obtain ⟨hlt, -⟩ := List.getElem?_eq_some_iff.1 hi
      by_cases hc : c = '/'
      · subst hc
        constructor
        · simp [Spans, outcomes, hi, inSegment]
        · rintro ⟨hij, -, hmem⟩
          rw [slice_succ hi hij] at hmem
          simp at hmem
      · have hin : inSegment c = true := by simpa [inSegment] using hc
        simp only [Spans, outcomes, hi, Option.any_some, hin, if_true, List.mem_map, Prod.mk.injEq,
          mem_runLengths, List.length_drop]
        constructor
        · rintro ⟨marks, n, ⟨hn, hclass⟩, rfl, rfl⟩
          refine ⟨by omega, by omega, ?_⟩
          rw [slice_succ hi (by omega), List.mem_cons, not_or]
          refine ⟨Ne.symm hc, fun hmem => ?_⟩
          rw [slice, Nat.add_sub_cancel_left] at hmem
          simpa [inSegment] using hclass _ hmem
        · rintro ⟨hij, hj, hmem⟩
          rw [slice_succ hi hij, List.mem_cons, not_or] at hmem
          refine ⟨[], j - (i + 1), ⟨by omega, fun d hd => ?_⟩, by omega, rfl⟩
          have hne : d ≠ '/' := by
            rintro rfl
            exact hmem.2 hd
          simpa [inSegment] using hne

@[simp] theorem spans_seq {p q : Pattern} {text : List Char} {i k : Nat} :
    (seq p q).Spans text i k ↔ ∃ j, p.Spans text i j ∧ q.Spans text j k := by
  simp only [Spans, outcomes, List.mem_flatMap, List.mem_map, Prod.exists, Prod.mk.injEq]
  constructor
  · rintro ⟨_, j, ms, hp, k', ms', hq, rfl, rfl⟩
    exact ⟨j, ⟨ms, hp⟩, ms', hq⟩
  · rintro ⟨j, ⟨ms, hp⟩, ms', hq⟩
    exact ⟨_, j, ms, hp, k, ms', hq, rfl, rfl⟩

@[simp] theorem spans_alt {p q : Pattern} {text : List Char} {i j : Nat} :
    (alt p q).Spans text i j ↔ p.Spans text i j ∨ q.Spans text i j := by
  simp [Spans, outcomes, exists_or]

@[simp] theorem spans_group {p : Pattern} {text : List Char} {i j : Nat} :
    (group p).Spans text i j ↔ p.Spans text i j := Iff.rfl

@[simp] theorem spans_capture {n : Nat} {p : Pattern} {text : List Char} {i j : Nat} :
    (capture n p).Spans text i j ↔ p.Spans text i j := by
  simp only [Spans, outcomes, List.mem_map, Prod.exists, Prod.mk.injEq]
  constructor
  · rintro ⟨_, _, ms, hmem, rfl, -⟩
    exact ⟨ms, hmem⟩
  · rintro ⟨ms, hmem⟩
    exact ⟨_, j, ms, hmem, rfl, rfl⟩

theorem spans_tail {text : List Char} {i j : Nat} :
    tail.Spans text i j ↔ j = i ∨ text[i]? = some '/' ∧ anyRun.Spans text (i + 1) j := by
  simp only [tail, spans_group, spans_alt, spans_empty, spans_seq, spans_char]
  constructor
  · rintro (h | ⟨_, ⟨h, rfl⟩, hrun⟩)
    · exact Or.inl h
    · exact Or.inr ⟨h, hrun⟩
  · rintro (h | ⟨h, hrun⟩)
    · exact Or.inl h
    · exact Or.inr ⟨i + 1, ⟨h, rfl⟩, hrun⟩

/-- A match goes forward and stays inside the text. -/
theorem Spans.bounds {p : Pattern} {text : List Char} {i j : Nat} (h : p.Spans text i j)
    (hi : i ≤ text.length) : i ≤ j ∧ j ≤ text.length := by
  induction p generalizing i j with
  | empty =>
      rw [spans_empty] at h
      omega
  | start =>
      rw [spans_start] at h
      omega
  | stop =>
      rw [spans_stop] at h
      omega
  | char c =>
      obtain ⟨hc, rfl⟩ := spans_char.1 h
      obtain ⟨hlt, -⟩ := List.getElem?_eq_some_iff.1 hc
      omega
  | segment =>
      obtain ⟨hij, hj, -⟩ := spans_segment.1 h
      omega
  | anyRun =>
      obtain ⟨hij, hj, -⟩ := (spans_anyRun hi).1 h
      exact ⟨hij, hj⟩
  | seq p q ihp ihq =>
      obtain ⟨k, hp, hq⟩ := spans_seq.1 h
      obtain ⟨hik, hk⟩ := ihp hp hi
      obtain ⟨hkj, hj⟩ := ihq hq hk
      omega
  | alt p q ihp ihq =>
      rcases spans_alt.1 h with hp | hq
      · exact ihp hp hi
      · exact ihq hq hi
  | group p ih => exact ih h hi
  | capture n p ih => exact ih (spans_capture.1 h) hi

/-! ### Searching with an anchored pattern -/

theorem findSome?_of_entry_eq_none {row : Row (List Mark)}
    (h : ∀ i, i ≠ 0 → row.entry i = none) : row.findSome? id = row.entry 0 := by
  cases row with
  | nil => rfl
  | cons here rest =>
      have hrest : rest.findSome? id = none := by
        rw [List.findSome?_eq_none_iff]
        intro x hx
        obtain ⟨i, hi, rfl⟩ := List.getElem_of_mem hx
        have := h (i + 1) (by omega)
        simpa [Row.entry, List.getElem?_eq_getElem hi] using this
      cases here with
      | none => simpa [Row.entry] using hrest
      | some marks => simp [Row.entry]

/-- At the end of a search everything is accepted, so the first outcome wins. -/
theorem firstInto_replicate {os : List Outcome} {n : Nat} (h : ∀ o ∈ os, o.1 < n) :
    firstInto (List.replicate n (some [])) os = os.head?.map Prod.snd := by
  cases os with
  | nil => rfl
  | cons o os =>
      have ho : o.1 < n := h o (by simp)
      have hentry : Row.entry (List.replicate n (some ([] : List Mark))) o.1 = some [] := by
        simp [Row.entry, ho]
      simp [firstInto, Outcome.into, hentry]

theorem search_anchored (p : Pattern) (text : List Char) :
    (seq start p).search text = (p.outcomes text 0).head?.map fun o => ⟨text, o.2⟩ := by
  have hlen : (List.replicate (text.length + 1) (some ([] : List Mark))).length =
      text.length + 1 := by simp
  have hentry (i : Nat) := entry_run (seq start p) hlen i
  have hnone : ∀ i, i ≠ 0 →
      ((seq start p).run text (List.replicate (text.length + 1) (some []))).entry i = none := by
    intro i hi
    rw [hentry, outcomes, outcomes, if_neg hi]
    rfl
  have hbound : ∀ o ∈ p.outcomes text 0, o.1 < text.length + 1 := by
    intro o ho
    have := (Spans.bounds (p := p) ⟨o.2, ho⟩ (Nat.zero_le _)).2
    omega
  rw [search, findSome?_of_entry_eq_none hnone, hentry, outcomes, outcomes, if_pos rfl]
  simp [firstInto_replicate hbound, Function.comp_def]

theorem isMatch_anchored {p : Pattern} {text : List Char} :
    (seq start p).isMatch text = true ↔ ∃ j, p.Spans text 0 j := by
  rw [isMatch, search_anchored]
  constructor
  · intro h
    cases ho : p.outcomes text 0 with
    | nil => simp [ho] at h
    | cons o os => exact ⟨o.1, o.2, by rw [ho]; exact List.mem_cons_self⟩
  · rintro ⟨j, marks, hmem⟩
    cases ho : p.outcomes text 0 with
    | nil => simp [ho] at hmem
    | cons o os => simp

end Pattern

end PathRouter
