import PathRouter.Proofs.Matcher.Lookup
import PathRouter.Proofs.Trie.First
import PathRouter.Proofs.Wildcard.Suffix

/-!
Which entry answers a path below a wildcard. If a suffix wildcard is among the entries, then no
entry can take a path from it that the wildcard does not cover as well: the first walk has to follow
the text before the star, and then either ends, or goes on in the text of its own path.
-/

namespace PathRouter

theorem Path.Covers.matches {path : Path} {text : List Char} (h : path.Covers text)
    (hsuffix : path.IsSuffixWildcard) (hcolon : ':' ∉ path) (hline : '\n' ∉ text) :
    path.Matches text := by
  rw [Path.matches_iff, keys_eq_globKeys hsuffix hcolon]
  rcases h with rfl | hreads
  · show Key.ReadAll [.onlyWildcard] text
    exact Key.readAll_singleton.2 hline
  · exact hreads

theorem eq_nil_of_map_key_stepsOf {tokens : List Token}
    (h : (stepsOf tokens).map Step.key = []) : tokens = [] := by
  cases tokens with
  | nil => rfl
  | cons token tokens => cases h

/-- The first token spells a slash, if its key is a literal slash or a tail. -/
theorem exists_slash_of_keys {tokens : List Token} {key : Key} {keys : List Key}
    (h : (stepsOf tokens).map Step.key = key :: keys)
    (hkey : key = .literal '/' ∨ key = .tailWildcard) :
    ∃ rest, tokens.flatMap Token.spelling = '/' :: rest := by
  cases tokens with
  | nil => cases h
  | cons token tokens =>
      rw [stepsOf, List.map_cons, List.cons.injEq] at h
      obtain ⟨hstep, -⟩ := h
      rw [List.flatMap_cons]
      cases token with
      | char c =>
          rcases hkey with rfl | rfl
          · cases hstep
            exact ⟨_, rfl⟩
          · cases hstep
      | param name => rcases hkey with rfl | rfl <;> cases hstep
      | star =>
          simp only [Token.step] at hstep
          split at hstep <;> rcases hkey with rfl | rfl <;> cases hstep
      | tailStar => exact ⟨_, rfl⟩

/-- Beside a tail, the first walk ends, or goes on by a slash or by the tail. -/
theorem Node.first_beside_tail {node : Node} (h : node.children.Proper) {text : List Char} {i : Nat}
    {first other : Walk} (hfirst : (node.walks text i).head? = some first)
    (hother : other ∈ node.walks text i) (hkeys : other.visits.map Visit.key = [.tailWildcard]) :
    first.visits = [] ∨ ∃ v vs, first.visits = v :: vs ∧
      (v.key = .literal '/' ∨ v.key = .tailWildcard) := by
  obtain ⟨visits, route⟩ := other
  cases visits with
  | nil => cases hkeys
  | cons u us =>
      rw [List.map_cons, List.cons.injEq] at hkeys
      obtain ⟨hu, hus⟩ := hkeys
      obtain ⟨child, -, -, -, hspans, hfits⟩ := (mem_walks h).1 hother
      rw [hu, Key.pattern, Pattern.spans_tail] at hspans
      rw [List.map_eq_nil_iff.1 hus] at hfits
      have hstop : u.stop = text.length := hfits.1
      rcases first_edge h hfirst with ⟨hend, -⟩ | ⟨v, w, child', rfl, -, hspans', -, hleast⟩
      · exact Or.inl hend
      · refine Or.inr ⟨v, w.visits, rfl, ?_⟩
        obtain ⟨v', vs, hvisits, hle⟩ := hleast _ hother
        obtain ⟨rfl, -⟩ := List.cons.inj hvisits
        rw [hu] at hle
        cases hk : v.key with
        | literal c =>
            rw [hk, Key.pattern, Pattern.spans_char] at hspans'
            rcases hspans with hi | ⟨hslash, -⟩
            · rw [← hi, hstop, List.getElem?_length] at hspans'
              cases hspans'.1
            · rw [hslash] at hspans'
              rw [Option.some.inj hspans'.1]
              exact Or.inl rfl
        | label =>
            -- a label reads something else than a slash
            rw [hk, Key.pattern, Pattern.spans_segment] at hspans'
            obtain ⟨hlt, hle', hmem⟩ := hspans'
            rcases hspans with hi | ⟨hslash, -⟩
            · omega
            · rw [Pattern.slice_succ hslash hlt] at hmem
              exact absurd List.mem_cons_self hmem
        | tailWildcard => exact Or.inr rfl
        | onlyWildcard =>
            rw [hk, Key.rank, Key.rank] at hle
            omega

namespace Matcher

namespace Built

variable {entries : List Entry} {matcher : Matcher} {a : Assembly} {merged : List Route}

/-- The entry that answers a path that a wildcard among the entries covers is covered itself. -/
theorem covers_answer (h : Built entries matcher a merged) {guard : Entry}
    (hguard : guard ∈ entries) (hsuffix : guard.1.IsSuffixWildcard) (hcolon : ':' ∉ guard.1)
    {path : Path}
    (hcovers : guard.1.Covers path) {first : Walk}
    (hfirst : (a.trie.root.walks path 0).head? = some first) {e : Entry}
    (hkeys : e.1.keys = first.visits.map Visit.key) (hline : '\n' ∉ e.1) : guard.1.Covers e.1 := by
  have hproper := h.holds.proper
  obtain ⟨guard, chain⟩ := guard
  simp only at hsuffix hcolon hcovers ⊢
  rcases hcovers with hall | hreads
  · exact Or.inl hall
  have hdynamic : guard.isStatic = false := hsuffix.isStatic
  rw [← Path.keys_eq_globKeys hsuffix hcolon, ← Path.matches_iff] at hreads
  obtain ⟨other, hother, hother_keys⟩ := h.exists_walk hguard hdynamic hreads
  have hglob := Path.keys_eq_globKeys hsuffix hcolon
  obtain ⟨stem, rfl, hstar⟩ := Path.isSuffixWildcard_iff.1 hsuffix
  simp only at hother_keys
  rw [Path.covers_suffix_iff hstar]
  rcases Path.exists_front_or_not stem with ⟨front, rfl⟩ | hslash
  · have hfront : '*' ∉ front := fun hmem => hstar (List.mem_append_left _ hmem)
    rw [hglob, List.append_assoc, List.singleton_append, Path.globKeys_tail hfront] at hother_keys
    obtain ⟨target, j, first', other', htarget, hfirst_keys, hfirst', hother', htail⟩ :=
      Node.first_follows_literals hproper hfirst hother hother_keys
    rw [hfirst_keys] at hkeys
    obtain ⟨rest, htext, hrest⟩ := Path.eq_append_of_keys hkeys
    rcases Node.first_beside_tail htarget hfirst' hother' htail with hend | ⟨v, vs, hvisits, hv⟩
    · -- the path of the entry ends before the slash of the wildcard
      rw [hend, List.map_nil] at hrest
      rw [eq_nil_of_map_key_stepsOf hrest, List.flatMap_nil, List.append_nil] at htext
      exact Or.inr (Or.inr (by rw [htext]))
    · rw [hvisits, List.map_cons] at hrest
      obtain ⟨rest', hspelling⟩ := exists_slash_of_keys hrest hv
      rw [hspelling] at htext
      refine Or.inr (Or.inl ⟨rest', by simp [htext], fun hmem => hline ?_⟩)
      simp [htext, hmem]
  · rw [hglob, Path.globKeys_star hstar hslash] at hother_keys
    obtain ⟨-, -, first', -, -, hfirst_keys, -⟩ :=
      Node.first_follows_literals hproper hfirst hother hother_keys
    rw [hfirst_keys] at hkeys
    obtain ⟨rest, htext, -⟩ := Path.eq_append_of_keys hkeys
    refine Or.inr (Or.inl ⟨_, htext, fun hmem => hline ?_⟩)
    rw [htext]
    exact List.mem_append_right _ hmem

end Built

end Matcher

end PathRouter
