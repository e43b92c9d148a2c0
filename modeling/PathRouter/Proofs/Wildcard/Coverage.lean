import Mathlib.Algebra.GroupWithZero.Nat
import PathRouter.Pattern.Size
import PathRouter.Proofs.Trie.Fits
import PathRouter.Wildcard

/-!
What a wildcard covers, as a language. The parts of a wildcard are read like keys of a trie, so a
path is covered if its text falls into pieces that the keys read. A wildcard covers its own path,
wherever its stars stand.
-/

namespace PathRouter

namespace Path

def globKey (c : Char) : Key := if c = '*' then .onlyWildcard else .literal c

def globKeys (path : Path) : List Key :=
  match path.splitTail? with
  | some (front, back) => front.map globKey ++ .tailWildcard :: back.map globKey
  | none => path.map globKey

/-- The wildcard covers the text: it is `*`, or its keys read the text. -/
def Covers (wildcard : Path) (text : List Char) : Prop :=
  wildcard = ['*'] ∨ Key.ReadAll wildcard.globKeys text

def covers [SizeRule] (wildcard : Path) (text : List Char) : Bool :=
  match Wildcard.ofPath wildcard with
  | .ok compiled => compiled.covers text
  | .error _ => false

theorem splitTail?_eq_some {path front back : Path} (h : path.splitTail? = some (front, back)) :
    path = front ++ '/' :: '*' :: back := by
  induction path generalizing front with
  | nil => cases h
  | cons c rest ih =>
      rw [splitTail?] at h
      split at h
      · next hc =>
          cases h
          obtain ⟨rfl, hhead⟩ := hc
          cases rest with
          | nil => cases hhead
          | cons d rest => rw [Option.some.inj hhead, List.nil_append, List.tail_cons]
      · obtain ⟨⟨front', back'⟩, hrest, hparts⟩ := Option.map_eq_some_iff.1 h
        cases hparts
        rw [ih hrest, List.cons_append]

/-- A text in which `/` and `*` never meet has no tail to split off. -/
theorem splitTail?_eq_none {path : Path} (h : ∀ front back, path ≠ front ++ '/' :: '*' :: back) :
    path.splitTail? = none := by
  cases hsplit : path.splitTail? with
  | none => rfl
  | some parts => exact absurd (splitTail?_eq_some hsplit) (h parts.1 parts.2)

theorem splitTail?_append {front back : Path} (h : '*' ∉ front) :
    splitTail? (front ++ '/' :: '*' :: back) = some (front, back) := by
  induction front with
  | nil => rfl
  | cons c rest ih =>
      rw [List.mem_cons, not_or] at h
      have hhead : (rest ++ '/' :: '*' :: back).head? ≠ some '*' := by
        cases rest with
        | nil => simp
        | cons d rest =>
            intro hd
            apply h.2
            rw [← Option.some.inj hd]
            exact List.mem_cons_self
      rw [List.cons_append, splitTail?, if_neg fun hc => hhead hc.2, ih h.2]
      rfl

/-- A wildcard is never looked up as it stands. -/
theorem isStatic_of_isWildcard {path : Path} (h : path.isWildcard = true) :
    path.isStatic = false := by
  rw [isWildcard, beq_iff_eq] at h
  have hmem : '*' ∈ path := List.mem_of_getLast? h
  rw [isStatic, List.contains_iff_mem.2 hmem]
  rfl

end Path

/-! ### Patterns of wildcards -/

theorem Path.globParts_eq (path : Path) :
    Wildcard.globParts path = (path.map Path.globKey).map Key.pattern := by
  rw [Wildcard.globParts, List.map_map]
  apply List.map_congr_left
  intro c _
  show _ = (Path.globKey c).pattern
  rw [Path.globKey]
  split <;> rfl

/-- The pattern of a wildcard is that of its keys, between the two ends of the text. -/
theorem Wildcard.pattern_eq (path : Path) :
    pattern path = .concat (.start :: (path.globKeys.map Key.pattern ++ [.stop])) := by
  unfold pattern Path.globKeys
  cases path.splitTail? with
  | none => rw [Path.globParts_eq, List.cons_append]
  | some parts =>
      simp only [Path.globParts_eq, List.map_append, List.map_cons, List.cons_append,
        List.append_assoc, Key.pattern]

theorem Pattern.concat_cons {p : Pattern} {ps : List Pattern} (h : ps ≠ []) :
    concat (p :: ps) = .seq p (concat ps) := by
  cases ps with
  | nil => exact absurd rfl h
  | cons q ps => rfl

theorem Pattern.programSize_concat (ps : List Pattern) :
    (concat ps).programSize = (ps.map programSize).sum := by
  induction ps with
  | nil => rfl
  | cons p ps ih =>
      cases ps with
      | nil => simp [concat]
      | cons q ps =>
          rw [concat_cons (by simp), List.map_cons, List.sum_cons, ← ih]
          rfl

theorem Wildcard.exists_error_of_size [SizeRule] {path : Path} (hstar : path ≠ ['*'])
    (hsize : ({} : Config).sizeLimit < SizeRule.size (pattern path)) :
    ∃ e, ofPath path = .error e := by
  rw [ofPath, if_neg hstar, Pattern.checked]
  by_cases hdeep : ({} : Config).nestLimit < (pattern path).depth
  · rw [if_pos hdeep]
    exact ⟨_, rfl⟩
  · rw [if_neg hdeep, if_pos hsize]
    exact ⟨_, rfl⟩

theorem Wildcard.exists_error_of_stars {n : Nat} (h : 30000 ≤ n) :
    ∃ e, ofPath (List.replicate n '*') = .error e := by
  apply exists_error_of_size
  · intro hstar
    have hlen := congrArg List.length hstar
    rw [List.length_replicate, List.length_singleton] at hlen
    omega
  · have hsplit : Path.splitTail? (List.replicate n '*') = none := by
      apply Path.splitTail?_eq_none
      intro front back heq
      have hslash : '/' ∈ List.replicate n '*' := heq ▸ by simp
      exact absurd (List.eq_of_mem_replicate hslash) (by decide)
    have hparts : globParts (List.replicate n '*') = List.replicate n .anyRun := by
      rw [globParts, List.map_replicate]
      rfl
    have hsize : SizeRule.size (pattern (List.replicate n '*')) = 8 + (n * 352 + 8) := by
      show (pattern (List.replicate n '*')).programSize = _
      rw [pattern, hsplit, Pattern.programSize_concat, hparts]
      simp [Pattern.programSize]
    rw [hsize]
    show 10485760 < _
    omega

/-- Keys one after the other span what is left of a text if they read it piece by piece. -/
theorem Key.spans_concat {keys : List Key} {text : List Char} {i j : Nat} (hi : i ≤ text.length) :
    (Pattern.concat (keys.map pattern ++ [.stop])).Spans text i j ↔
      j = text.length ∧ ReadAll keys (text.drop i) := by
  induction keys generalizing i with
  | nil =>
      show Pattern.stop.Spans text i j ↔ _
      rw [Pattern.spans_stop]
      constructor
      · rintro ⟨rfl, rfl⟩
        exact ⟨rfl, readAll_nil.2 List.drop_length⟩
      · rintro ⟨rfl, hall⟩
        exact ⟨Nat.le_antisymm hi (List.drop_eq_nil_iff.1 (readAll_nil.1 hall)), rfl⟩
  | cons key keys ih =>
      rw [List.map_cons, List.cons_append, Pattern.concat_cons (by simp), Pattern.spans_seq]
      -- the first key reads the slice up to where the others go on
      constructor
      · rintro ⟨k, hkey, hrest⟩
        obtain ⟨hle, hk, hreads⟩ := (spans_pattern hi).1 hkey
        obtain ⟨hj, hall⟩ := (ih hk).1 hrest
        refine ⟨hj, readAll_cons.2 ⟨_, _, hreads, hall, ?_⟩⟩
        rw [← Pattern.slice_to_end, ← Pattern.slice_to_end, Pattern.slice_append hle hk]
      · rintro ⟨hj, hall⟩
        obtain ⟨piece, rest, hreads, hrest, hdrop⟩ := readAll_cons.1 hall
        have hlen := congrArg List.length hdrop
        rw [List.length_drop, List.length_append] at hlen
        have hk : i + piece.length ≤ text.length := by omega
        refine ⟨i + piece.length, (spans_pattern hi).2 ⟨by omega, hk, ?_⟩, ?_⟩
        · rw [Pattern.slice_of_drop_eq hdrop]
          exact hreads
        · rw [ih hk, Pattern.drop_of_drop_eq hdrop]
          exact ⟨hj, hrest⟩

namespace Path

section

variable [SizeRule]

theorem covers_ofPath {path : Path} {wildcard : Wildcard} (h : Wildcard.ofPath path = .ok wildcard)
    {text : List Char} : wildcard.covers text = true ↔ path.Covers text := by
  rw [Wildcard.ofPath] at h
  split at h
  · next hstar =>
      cases h
      simp [Wildcard.covers, Covers, hstar]
  · next hstar =>
      split at h
      · next p hchecked =>
          cases h
          rw [Wildcard.covers, Pattern.eq_of_checked hchecked, Wildcard.pattern_eq,
            Pattern.concat_cons (by simp), Pattern.isMatch_anchored, Covers]
          simp only [Key.spans_concat (Nat.zero_le _), List.drop_zero, exists_eq_left, hstar,
            false_or]
      · cases h

theorem covers_eq {path : Path} {wildcard : Wildcard} (h : Wildcard.ofPath path = .ok wildcard) :
    path.covers = wildcard.covers := by
  funext text
  rw [covers, h]

theorem covers_iff {path : Path} {text : List Char} :
    path.covers text = true ↔ (∃ wildcard, Wildcard.ofPath path = .ok wildcard) ∧
      path.Covers text := by
  cases h : Wildcard.ofPath path with
  | ok wildcard => simp [covers_eq h, covers_ofPath h]
  | error e => simp [covers, h]

end

/-! ### Wildcards cover themselves -/

/-- Each character of a wildcard reads itself. -/
theorem readAll_globKeys (path : Path) : Key.ReadAll (path.map globKey) path := by
  induction path with
  | nil => exact Key.readAll_nil.2 rfl
  | cons c path ih =>
      refine Key.readAll_cons.2 ⟨[c], path, ?_, ih, rfl⟩
      rw [globKey]
      split
      · next hc =>
          rw [hc]
          show '\n' ∉ ['*']
          decide
      · rfl

/-- A wildcard covers its own path: each star may read itself. -/
theorem covers_self (path : Path) : path.Covers path := by
  apply Or.inr
  rw [globKeys]
  cases hsplit : path.splitTail? with
  | none => exact readAll_globKeys path
  | some parts =>
      obtain ⟨front, back⟩ := parts
      have htail : Key.tailWildcard.Reads ['/', '*'] := Or.inr ⟨['*'], rfl, by decide⟩
      refine Key.readAll_append.2 ⟨front, ['/', '*'] ++ back, readAll_globKeys front, ?_,
        splitTail?_eq_some hsplit⟩
      exact Key.readAll_cons.2 ⟨_, back, htail, readAll_globKeys back, rfl⟩

end Path

end PathRouter
