import PathRouter.Proofs.Path.Tokenize
import PathRouter.Proofs.Wildcard.Coverage

/-!
Wildcards whose only star is their last character. Such a wildcard covers what goes on from the text
before its star, within one line; one that ends in a slash and a star covers the text before the
slash too. Two of them that cover the same text are nested: the shorter one covers the other.
-/

namespace PathRouter

namespace Path

/-- The last character is a star, and no other one is. -/
def IsSuffixWildcard (path : Path) : Prop := path.isWildcard = true ∧ path.count '*' = 1

theorem isSuffixWildcard_iff {path : Path} :
    path.IsSuffixWildcard ↔ ∃ stem, path = stem ++ ['*'] ∧ '*' ∉ stem := by
  constructor
  · rintro ⟨hwild, hcount⟩
    have hlast : path.getLast? = some '*' := by simpa [isWildcard] using hwild
    obtain ⟨stem, hstem⟩ := List.getLast?_eq_some_iff.1 hlast
    refine ⟨stem, hstem, ?_⟩
    rw [hstem, List.count_append, List.count_singleton_self] at hcount
    rw [← List.count_eq_zero]
    omega
  · rintro ⟨stem, rfl, hstem⟩
    constructor
    · simp [isWildcard]
    · rw [List.count_append, List.count_eq_zero.2 hstem, List.count_singleton_self]

theorem IsSuffixWildcard.isStatic {path : Path} (h : path.IsSuffixWildcard) :
    path.isStatic = false :=
  isStatic_of_isWildcard h.1

/-! ### What they cover -/

theorem map_globKey {path : Path} (h : '*' ∉ path) : path.map globKey = path.map .literal := by
  apply List.map_congr_left
  intro c hc
  refine if_neg fun hstar => h ?_
  rwa [← hstar]

theorem globKeys_tail {stem : Path} (h : '*' ∉ stem) :
    globKeys (stem ++ ['/', '*']) = stem.map .literal ++ [.tailWildcard] := by
  rw [globKeys, splitTail?_append h]
  simp [map_globKey h]

theorem globKeys_star {stem : Path} (h : '*' ∉ stem) (hslash : ∀ front, stem ≠ front ++ ['/']) :
    globKeys (stem ++ ['*']) = stem.map .literal ++ [.onlyWildcard] := by
  have hsplit : splitTail? (stem ++ ['*']) = none := by
    apply splitTail?_eq_none
    intro front back heq
    -- the star behind the slash is the only one, so nothing follows it
    have hstar : (front ++ ['/']) ++ '*' :: back = stem ++ '*' :: [] := by simp [heq]
    have hfront : front ++ ['/'] = stem := by
      rcases List.append_eq_append_iff.1 hstar with ⟨mid, hstem, hmid⟩ | ⟨mid, hfront, hmid⟩
      · cases mid with
        | nil => rw [hstem, List.append_nil]
        | cons c mid =>
            obtain ⟨rfl, -⟩ := List.cons.inj hmid
            exact absurd (by simp [hstem]) h
      · cases mid with
        | nil => rw [hfront, List.append_nil]
        | cons c mid => simp at hmid
    exact hslash front hfront.symm
  rw [globKeys, hsplit, List.map_append, map_globKey h]
  rfl

theorem exists_front_or_not (stem : Path) :
    (∃ front, stem = front ++ ['/']) ∨ ∀ front, stem ≠ front ++ ['/'] := by
  by_cases hslash : ∃ front, stem = front ++ ['/']
  · exact Or.inl hslash
  · exact Or.inr fun front heq => hslash ⟨front, heq⟩

/-- Without colons, a suffix wildcard has the same keys in the trie. -/
theorem keys_eq_globKeys {path : Path} (h : path.IsSuffixWildcard) (hcolon : ':' ∉ path) :
    path.keys = path.globKeys := by
  obtain ⟨stem, rfl, hstar⟩ := isSuffixWildcard_iff.1 h
  have hcolon' : ':' ∉ stem := fun hmem => hcolon (List.mem_append_left _ hmem)
  rcases exists_front_or_not stem with ⟨front, rfl⟩ | hslash
  · have hfront : '*' ∉ front := fun hmem => hstar (List.mem_append_left _ hmem)
    have hcolon'' : ':' ∉ front := fun hmem => hcolon' (List.mem_append_left _ hmem)
    rw [List.append_assoc, List.singleton_append, globKeys_tail hfront,
      keys_append hcolon'' hfront (by simp)]
    congr 1
    simp [keys, steps, tokenize, leadingName, stepsOf, Token.step]
  · have hmeet : stem.getLast? ≠ some '/' := by
      intro hlast
      obtain ⟨front, hfront⟩ := List.getLast?_eq_some_iff.1 hlast
      exact hslash front hfront
    rw [globKeys_star hstar hslash, keys_append hcolon' hstar fun _ => hmeet]
    congr 1
    simp [keys, steps, tokenize, leadingName, stepsOf, Token.step]

/-- What a suffix wildcard covers, by the text before its star. -/
theorem covers_suffix_iff {stem : Path} (h : '*' ∉ stem) {text : List Char} :
    Covers (stem ++ ['*']) text ↔
      stem = [] ∨ (∃ rest, text = stem ++ rest ∧ '\n' ∉ rest) ∨ stem = text ++ ['/'] := by
  have hnil : stem ++ ['*'] = ['*'] ↔ stem = [] := by simp
  rw [Covers, hnil]
  apply or_congr_right
  rcases exists_front_or_not stem with ⟨front, rfl⟩ | hslash
  · have hfront : '*' ∉ front := fun hmem => h (List.mem_append_left _ hmem)
    rw [List.append_assoc, List.singleton_append, globKeys_tail hfront, Key.readAll_literals_append]
    constructor
    · rintro ⟨_, rfl, rfl | ⟨rest, rfl, hrest⟩⟩
      · exact Or.inr (by rw [List.append_nil])
      · exact Or.inl ⟨rest, by simp, hrest⟩
    · rintro (⟨rest, rfl, hrest⟩ | htext)
      · exact ⟨'/' :: rest, by simp, Or.inr ⟨rest, rfl, hrest⟩⟩
      · exact ⟨[], by rw [List.append_cancel_right htext, List.append_nil], Or.inl rfl⟩
  · rw [globKeys_star h hslash, Key.readAll_literals_append]
    constructor
    · rintro ⟨rest, rfl, hrest⟩
      exact Or.inl ⟨rest, rfl, hrest⟩
    · rintro (⟨rest, rfl, hrest⟩ | htext)
      · exact ⟨rest, rfl, hrest⟩
      · exact absurd htext (hslash text)

/-! ### Nesting -/

/-- A suffix wildcard covers another one if the text before its star goes on to the other's. -/
theorem covers_suffix_suffix_iff {p q : Path} (hp : '*' ∉ p) :
    Covers (p ++ ['*']) (q ++ ['*']) ↔ p = [] ∨ ∃ rest, q = p ++ rest ∧ '\n' ∉ rest := by
  rw [covers_suffix_iff hp]
  constructor
  · rintro (hnil | ⟨rest, htext, hrest⟩ | hslash)
    · exact Or.inl hnil
    · rcases List.eq_nil_or_concat rest with rfl | ⟨rest, c, rfl⟩
      · rw [List.append_nil] at htext
        exact absurd (htext ▸ by simp) hp
      · rw [List.concat_eq_append, ← List.append_assoc] at htext
        refine Or.inr ⟨rest, (List.append_inj' htext rfl).1, ?_⟩
        intro hmem
        exact hrest (by simp [hmem])
    · exact absurd (hslash ▸ by simp) hp
  · rintro (hnil | ⟨rest, rfl, hrest⟩)
    · exact Or.inl hnil
    · exact Or.inr (Or.inl ⟨rest ++ ['*'], List.append_assoc .., by simpa using hrest⟩)

theorem Covers.trans {w v : Path} (hw : w.IsSuffixWildcard) (hv : v.IsSuffixWildcard)
    {text : List Char} (hwv : w.Covers v) (h : v.Covers text) : w.Covers text := by
  obtain ⟨p, rfl, hp⟩ := isSuffixWildcard_iff.1 hw
  obtain ⟨q, rfl, hq⟩ := isSuffixWildcard_iff.1 hv
  rw [covers_suffix_suffix_iff hp] at hwv
  rw [covers_suffix_iff hp]
  rcases hwv with hnil | ⟨mid, rfl, hmid⟩
  · exact Or.inl hnil
  rcases (covers_suffix_iff hq).1 h with hnil | ⟨rest, rfl, hrest⟩ | hslash
  · exact Or.inl (List.append_eq_nil_iff.1 hnil).1
  · refine Or.inr (Or.inl ⟨mid ++ rest, List.append_assoc .., ?_⟩)
    rw [List.mem_append, not_or]
    exact ⟨hmid, hrest⟩
  · -- the text lacks the last slash, which is that of `p` if nothing lies between the two stems
    rcases List.eq_nil_or_concat mid with rfl | ⟨mid, c, rfl⟩
    · rw [List.append_nil] at hslash
      exact Or.inr (Or.inr hslash)
    · rw [List.concat_eq_append, ← List.append_assoc] at hslash
      refine Or.inr (Or.inl ⟨mid, (List.append_inj' hslash rfl).1.symm, ?_⟩)
      intro hmem
      exact hmid (by simp [hmem])

theorem byteLength_lt_append {p rest : Path} (hne : rest ≠ []) :
    (p ++ ['*']).byteLength < (p ++ rest ++ ['*']).byteLength := by
  have hpos := byteLength_pos hne
  simp only [byteLength_append]
  omega

/-- Of two suffix wildcards that cover one text, one is shorter and covers the other. -/
theorem Covers.nested {w v : Path} (hw : w.IsSuffixWildcard) (hv : v.IsSuffixWildcard) (hne : w ≠ v)
    {text : List Char} (hwt : w.Covers text) (hvt : v.Covers text) :
    (w.byteLength < v.byteLength ∧ w.Covers v) ∨ (v.byteLength < w.byteLength ∧ v.Covers w) := by
  obtain ⟨p, rfl, hp⟩ := isSuffixWildcard_iff.1 hw
  obtain ⟨q, rfl, hq⟩ := isSuffixWildcard_iff.1 hv
  have hstems : p ≠ q := fun heq => hne (by rw [heq])
  have hlonger {p rest : Path} (hp : '*' ∉ p) (hne : rest ≠ []) (hrest : '\n' ∉ rest) :
      (p ++ ['*']).byteLength < (p ++ rest ++ ['*']).byteLength ∧
        Covers (p ++ ['*']) (p ++ rest ++ ['*']) :=
    ⟨byteLength_lt_append hne, (covers_suffix_suffix_iff hp).2 (Or.inr ⟨rest, rfl, hrest⟩)⟩
  rcases (covers_suffix_iff hp).1 hwt with rfl | ⟨t, rfl, ht⟩ | rfl
  · -- the wildcard `*` is shorter than any other, and covers it
    exact Or.inl ⟨byteLength_lt_append hstems.symm, Or.inl rfl⟩
  · rcases (covers_suffix_iff hq).1 hvt with rfl | ⟨u, htext, hu⟩ | rfl
    · exact Or.inr ⟨byteLength_lt_append hstems, Or.inl rfl⟩
    · -- both stems are prefixes of the text, so one of them goes on from the other
      rcases List.append_eq_append_iff.1 htext with ⟨mid, rfl, rfl⟩ | ⟨mid, rfl, rfl⟩
      · refine Or.inl (hlonger hp ?_ fun hmem => ht (List.mem_append_left _ hmem))
        rintro rfl
        exact hstems (List.append_nil p).symm
      · refine Or.inr (hlonger hq ?_ fun hmem => hu (List.mem_append_left _ hmem))
        rintro rfl
        exact hstems (List.append_nil q)
    · rw [List.append_assoc p]
      exact Or.inl (hlonger hp (by simp) (by simpa using ht))
  · rcases (covers_suffix_iff hq).1 hvt with rfl | ⟨u, rfl, hu⟩ | rfl
    · exact Or.inr ⟨byteLength_lt_append hstems, Or.inl rfl⟩
    · rw [List.append_assoc q]
      exact Or.inr (hlonger hq (by simp) (by simpa using hu))
    · exact absurd rfl hstems

end Path

end PathRouter
