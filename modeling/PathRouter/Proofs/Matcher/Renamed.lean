import Mathlib
import PathRouter.Proofs.Matcher.Positions
import PathRouter.Proofs.Path.Template

/-!
Lists of entries whose parameters are renamed. Two entries that refuse each other do so under all
names. But an entry that refuses another one, and is not refused by it, may stand behind it, and
names matter for that: they make one path longer than the other. Such a pair is a static path beside
one with parameters, or a path that ends in a star where the other one goes on.
-/

namespace PathRouter

theorem Path.Renamed.refusedBehind_iff {path path' earlier earlier' : Path}
    (h : path.Renamed path') (h' : earlier.Renamed earlier') :
    path'.RefusedBehind earlier' ↔ path.RefusedBehind earlier := by
  rw [RefusedBehind, RefusedBehind, Conflicts, Conflicts, h.keys_eq, h'.keys_eq, h'.isStatic_eq]

/-- The path ends in a wildcard where the other one goes on with a literal or a label. -/
def Path.CutsShort (path other : Path) : Prop :=
  ∃ common wildcard present rest, path.keys = common ++ [wildcard] ∧ wildcard.isWildcard = true ∧
    other.keys = common ++ present :: rest ∧ present.isWildcard = false

/-- Of two paths that conflict in one order only, the one that is refused cuts the other one
short. -/
theorem Path.cutsShort_of_conflicts {path other : Path} (h : path.Conflicts other)
    (hnot : ¬other.Conflicts path) : path.CutsShort other := by
  rcases h with hkeys | ⟨common, key, present, rest, rest', hkeys, hother, hne, hclash⟩
  · exact absurd (Or.inl hkeys.symm) hnot
  · have hback : ¬present.Clashes key := fun hclash' =>
      hnot (Or.inr ⟨common, present, key, rest', rest, hother, hkeys, hne.symm, hclash'⟩)
    -- literals and labels clash in both orders, so the key that is refused is a wildcard
    have hwild : key.isWildcard = true ∧ present.isWildcard = false := by
      cases key <;> cases present <;> simp_all [Key.Clashes, Key.isLiteral, Key.isWildcard]
    have hlast : Key.WildcardLast (key :: rest) :=
      List.IsChain.right_of_append (hkeys ▸ path.wildcardLast_keys)
    rw [hlast.eq_nil hwild.1] at hkeys
    exact ⟨common, key, present, rest', hkeys, hwild.1, hother, hwild.2⟩

/-- A path that is refused behind another one, which is not refused behind it, is static or cuts the
other one short. -/
theorem RefusesOneWay.cases {entries : List Entry} {i j : Nat} (h : RefusesOneWay entries i j) :
    ∃ e ∈ entries[i]?, ∃ e' ∈ entries[j]?, e.1.isStatic = false ∧
      (e'.1.isStatic = true ∨ e'.1.CutsShort e.1) := by
  obtain ⟨⟨e, hi, e', hj, hdynamic, hconflict⟩, hnot⟩ := h
  refine ⟨e, hi, e', hj, hdynamic, ?_⟩
  cases hstatic : e'.1.isStatic with
  | true => exact Or.inl rfl
  | false =>
      refine Or.inr (Path.cutsShort_of_conflicts hconflict fun hback => ?_)
      exact hnot ⟨e', hj, e, hi, hstatic, hback⟩

/-- A list is refused for two positions that refuse each other, or for one that comes first and
refuses the other one. -/
theorem exists_refuses_iff {entries : List Entry} :
    (∃ i j, ComesFirst entries i j ∧ Refuses entries i j) ↔
      (∃ i j, i ≠ j ∧ Refuses entries i j ∧ Refuses entries j i) ∨
        ∃ i j, RefusesOneWay entries i j ∧ ComesFirst entries i j := by
  constructor
  · rintro ⟨i, j, hfirst, hrefuses⟩
    by_cases hback : Refuses entries j i
    · exact Or.inl ⟨i, j, hfirst.ne, hrefuses, hback⟩
    · exact Or.inr ⟨i, j, ⟨hrefuses, hback⟩, hfirst⟩
  · rintro (⟨i, j, hne, hrefuses, hback⟩ | ⟨i, j, hrefuses, hfirst⟩)
    · rcases hrefuses.comesFirst hne with hfirst | hfirst
      · exact ⟨i, j, hfirst, hrefuses⟩
      · exact ⟨j, i, hfirst, hback⟩
    · exact ⟨i, j, hfirst, hrefuses.1⟩

section

variable {entries entries' : List Entry}
  (hrenamed : List.Forall₂ (fun e e' => e.1.Renamed e'.1) entries entries')
include hrenamed

/-- Whatever the parameters are called, the same positions refuse each other. -/
theorem refuses_iff_of_renamed {i j : Nat} : Refuses entries' i j ↔ Refuses entries i j := by
  constructor
  · rintro ⟨e, hi, e', hj, hrefused⟩
    obtain ⟨f, hf, hfe⟩ := exists_getElem?_of_forall₂ hrenamed.flip hi
    obtain ⟨f', hf', hfe'⟩ := exists_getElem?_of_forall₂ hrenamed.flip hj
    exact ⟨f, hf, f', hf', (Path.Renamed.refusedBehind_iff hfe' hfe).1 hrefused⟩
  · rintro ⟨e, hi, e', hj, hrefused⟩
    obtain ⟨f, hf, hef⟩ := exists_getElem?_of_forall₂ hrenamed hi
    obtain ⟨f', hf', hef'⟩ := exists_getElem?_of_forall₂ hrenamed hj
    exact ⟨f, hf, f', hf', (Path.Renamed.refusedBehind_iff hef' hef).2 hrefused⟩

theorem refusesOneWay_iff_of_renamed {i j : Nat} :
    RefusesOneWay entries' i j ↔ RefusesOneWay entries i j := by
  rw [RefusesOneWay, RefusesOneWay, refuses_iff_of_renamed hrenamed,
    refuses_iff_of_renamed hrenamed]

end

namespace Matcher

/-- The names of the parameters decide conflicts only by the order in which entries are taken in. A
list is refused for a path if two entries refuse each other, whatever the names, or if an entry that
comes first refuses another one, but not the other way round. So other names leave it refused or not
refused, as long as they leave the order of such entries. The second one of them is then static or
cuts the first one short. -/
theorem refused_renamed [SizeRule] {config : Config} {entries entries' : List Entry}
    (hrenamed : List.Forall₂ (fun e e' => e.1.Renamed e'.1) entries entries') :
    ((∃ path, build config entries' = .error (.unsupportedPath path)) ↔
      (∃ i j, i ≠ j ∧ Refuses entries i j ∧ Refuses entries j i) ∨
        ∃ i j, RefusesOneWay entries i j ∧ ComesFirst entries' i j) ∧
    ((∀ i j, RefusesOneWay entries i j → (ComesFirst entries' i j ↔ ComesFirst entries i j)) →
      ((∃ path, build config entries' = .error (.unsupportedPath path)) ↔
        ∃ path, build config entries = .error (.unsupportedPath path))) ∧
    ∀ i j, RefusesOneWay entries i j →
      ∃ e ∈ entries[i]?, ∃ e' ∈ entries[j]?, e.1.isStatic = false ∧
        (e'.1.isStatic = true ∨ e'.1.CutsShort e.1) := by
  have hverdict : (∃ path, build config entries' = .error (.unsupportedPath path)) ↔
      (∃ i j, i ≠ j ∧ Refuses entries i j ∧ Refuses entries j i) ∨
        ∃ i j, RefusesOneWay entries i j ∧ ComesFirst entries' i j := by
    rw [build_refused_iff, exists_refuses_iff]
    simp only [refuses_iff_of_renamed hrenamed, refusesOneWay_iff_of_renamed hrenamed]
  refine ⟨hverdict, fun horder => ?_, fun i j h => h.cases⟩
  rw [hverdict, build_refused_iff, exists_refuses_iff]
  refine or_congr_right (exists_congr fun i => exists_congr fun j => ?_)
  exact and_congr_right (horder i j)

/-- A wildcard that is refused behind a path that goes on: with a long name it comes last, with a
short one first. -/
theorem refused_renamed_tail :
    let entries : List Entry := [("/:id/*".toList, [0]), ("/:user/posts/:post".toList, [1])]
    let last : List Entry := [("/:identifier/*".toList, [0]), ("/:u/posts/:p".toList, [1])]
    let first : List Entry := [("/:i/*".toList, [0]), ("/:u/posts/:p".toList, [1])]
    List.Forall₂ (fun e e' => e.1.Renamed e'.1) entries last ∧
      List.Forall₂ (fun e e' => e.1.Renamed e'.1) entries first ∧
      RefusesOneWay entries 1 0 ∧
      (∃ path, build {} last = .error (.unsupportedPath path)) ∧
      ¬∃ path, build {} first = .error (.unsupportedPath path) := by
  intro entries last first
  have htail (name name' : List Char) (hname : name ≠ [] ∧ '/' ∉ name ∧ '*' ∉ name)
      (hname' : name' ≠ [] ∧ '/' ∉ name' ∧ '*' ∉ name') :
      Path.Renamed ('/' :: ':' :: (name ++ "/*".toList))
        ('/' :: ':' :: (name' ++ "/*".toList)) :=
    ⟨⟨.text [] (by decide), [.param name hname], true⟩,
      ⟨.text [] (by decide), [.param name' hname'], true⟩,
      ⟨.text .., .cons (.param ..) .nil, rfl⟩, rfl, rfl⟩
  have hposts : Path.Renamed "/:user/posts/:post".toList "/:u/posts/:p".toList :=
    ⟨⟨.text [] (by decide), [.param "user".toList (by decide), .text "posts".toList (by decide),
        .param "post".toList (by decide)], false⟩,
      ⟨.text [] (by decide), [.param "u".toList (by decide), .text "posts".toList (by decide),
        .param "p".toList (by decide)], false⟩,
      ⟨.text .., .cons (.param ..) (.cons (.text ..) (.cons (.param ..) .nil)), rfl⟩,
      by decide, by decide⟩
  have hlast : List.Forall₂ (fun e e' : Entry => e.1.Renamed e'.1) entries last :=
    .cons (htail "id".toList "identifier".toList (by decide) (by decide)) (.cons hposts .nil)
  have hfirst : List.Forall₂ (fun e e' : Entry => e.1.Renamed e'.1) entries first :=
    .cons (htail "id".toList "i".toList (by decide) (by decide)) (.cons hposts .nil)
  have honeway : RefusesOneWay entries 1 0 := by decide +kernel
  refine ⟨hlast, hfirst, honeway, ?_, ?_⟩
  · exact (refused_renamed hlast).1.2 (Or.inr ⟨1, 0, honeway, by decide⟩)
  · -- the order is kept, and the list as it was is not refused
    have horder (i j : Nat) (h : RefusesOneWay entries i j) :
        ComesFirst first i j ↔ ComesFirst entries i j := by
      obtain ⟨⟨e, hi, e', hj, -⟩, -⟩ := h
      have hi : i < 2 := (List.getElem?_eq_some_iff.1 hi).1
      have hj : j < 2 := (List.getElem?_eq_some_iff.1 hj).1
      interval_cases i <;> interval_cases j <;> decide
    have hbuilt : (build {} entries).toOption.isSome = true := by cbv
    rw [(refused_renamed hfirst).2.1 horder]
    rintro ⟨path, herror⟩
    exact ne_error_of_toOption hbuilt _ herror

/-- A shorter name for a parameter turns a list that builds into one that is refused. -/
theorem name_decides_conflict :
    let entries : List Entry :=
      [("/users/:identifier".toList, [0]), ("/users/settings".toList, [1])]
    let entries' : List Entry := [("/users/:id".toList, [0]), ("/users/settings".toList, [1])]
    List.Forall₂ (fun e e' => e.1.Renamed e'.1) entries entries' ∧
      (entries.map Prod.fst).Nodup ∧ (entries'.map Prod.fst).Nodup ∧
      (¬∃ path, build {} entries = .error (.unsupportedPath path)) ∧
      build {} entries' = .error (.unsupportedPath "/users/settings".toList) := by
  intro entries entries'
  have hparam : Path.Renamed "/users/:identifier".toList "/users/:id".toList :=
    ⟨⟨.text [] (by decide), [.text "users".toList (by decide),
        .param "identifier".toList (by decide)], false⟩,
      ⟨.text [] (by decide), [.text "users".toList (by decide), .param "id".toList (by decide)],
        false⟩,
      ⟨.text .., .cons (.text ..) (.cons (.param ..) .nil), rfl⟩, by decide, by decide⟩
  have hstatic : Path.Renamed "/users/settings".toList "/users/settings".toList :=
    ⟨⟨.text [] (by decide), [.text "users".toList (by decide),
        .text "settings".toList (by decide)], false⟩, _,
      ⟨.text .., .cons (.text ..) (.cons (.text ..) .nil), rfl⟩, by decide, by decide⟩
  have hbuilt : (build {} entries).toOption.isSome = true := by cbv
  refine ⟨.cons hparam (.cons hstatic .nil), by decide, by decide, ?_, by cbv⟩
  rintro ⟨path, herror⟩
  exact ne_error_of_toOption hbuilt _ herror

end Matcher

end PathRouter
